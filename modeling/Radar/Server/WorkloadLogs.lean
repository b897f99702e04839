import Mathlib.Data.List.Nodup
import Radar.Base.Runs

/- internal/server/workload_logs.go: one streaming request of handleWorkloadLogsStream, its discovery ticks and the goroutines
   that run streamPodLogs, beside the containers that write the logs. -/
namespace WorkloadLogs
open Runs

section Model

/-- The key podName/containerName; a pod's name has no slash. -/
structure Key where
  pod : String
  container : String
  deriving DecidableEq

structure Pod where
  name : String
  /-- What GetContainersForPod gives. -/
  containers : List String

/-- One line of the log of one instance of a container. -/
structure Line where
  key : Key
  instance_ : Nat
  index : Nat
  deriving DecidableEq

structure WorkloadLogEntry where
  pod : String
  container : String
  content : String
  /-- Where the line comes from. -/
  line : Line
  deriving DecidableEq

/-- A goroutine: it asks for the log, stands at the top of its loop, reads, has returned, or has deleted its key. -/
inductive Phase where
  | opening | top | reading | returned | removed
  deriving DecidableEq

structure Stream where
  key : Key
  cancelled : Bool
  phase : Phase
  /-- The instance whose log it follows, and the line it reads next. -/
  instance_ : Nat
  next : Nat

/-- The state of the request, and the instances of each container with their logs. -/
structure State where
  streams : Nat → Option Stream
  started : Nat
  activeStreams : Key → Option Nat
  knownPods : List String
  logCh : List WorkloadLogEntry
  sent : List WorkloadLogEntry
  current : Key → Nat
  logs : Key → Nat → List String

inductive Label where
  | write (key : Key) (line : String)
  | restart (key : Key)
  | tick (pods : List Pod)
  | open_ (id : Nat)
  | check (id : Nat)
  | emit (id : Nat)
  | return_ (id : Nat)
  | remove (id : Nat)
  | forward

def initial : State := ⟨fun _ => none, 0, fun _ => none, [], [], [], fun _ => 0, fun _ _ => []⟩

def startStream (m : State) (key : Key) : State := if (m.activeStreams key).isSome then m
  else
    { m with
      streams := Function.update m.streams m.started (some ⟨key, false, .opening, 0, 0⟩)
      started := m.started + 1
      activeStreams := Function.update m.activeStreams key (some m.started) }

def startPodStreams (m : State) (pods : List Pod) : State :=
  (pods.flatMap fun pod => pod.containers.map fun c => ⟨pod.name, c⟩).foldl startStream m

/-- Cancels and forgets the streams of the pods that are gone. -/
def cancelPods (m : State) (gone : List String) : State := { m with
    streams := fun id => (m.streams id).map fun s =>
      if s.key.pod ∈ gone ∧ m.activeStreams s.key = some id then { s with cancelled := true } else s
    activeStreams := fun key => if key.pod ∈ gone then none else m.activeStreams key }

def tick (m : State) (pods : List Pod) : State := let names := pods.map Pod.name
  let gone := m.knownPods.filter fun name => name ∉ names
  startPodStreams { cancelPods m gone with knownPods := names } pods

def State.set (m : State) (id : Nat) (s : Stream) : State := { m with streams := Function.update m.streams id (some s) }

variable (tailLines : Nat)

/-- The first line that a stream opened now replays. -/
def State.start (m : State) (key : Key) : Nat := (m.logs key (m.current key)).length - tailLines

def openStream (m : State) (id : Nat) (s : Stream) : Option State := if s.phase = .opening then
    some (m.set id { s with phase := .top, instance_ := m.current s.key, next := m.start tailLines s.key })
  else none

/-- The loop goes on to read unless the context is done. -/
def checkStream (m : State) (id : Nat) (s : Stream) : Option State :=
  if s.phase = .top ∧ s.cancelled = false then some (m.set id { s with phase := .reading }) else none

def Stream.line (s : Stream) : Line := ⟨s.key, s.instance_, s.next⟩

/-- A line that was read goes to the channel, unless it is empty. -/
def emitStream (m : State) (id : Nat) (s : Stream) : Option State := if s.phase = .reading then
    (m.logs s.key s.instance_)[s.next]?.map fun content =>
      let later := m.set id { s with phase := .top, next := s.next + 1 }
      if content = "" then later
      else { later with logCh := m.logCh ++ [⟨s.key.pod, s.key.container, content, s.line⟩] }
  else none

/-- At the end of the log, an error or a cancellation. -/
def returnStream (m : State) (id : Nat) (s : Stream) : Option State :=
  if s.phase = .returned ∨ s.phase = .removed then none else some (m.set id { s with phase := .returned })

/-- The deferred removal of the key. -/
def removeStream (m : State) (id : Nat) (s : Stream) : Option State := if s.phase = .returned then
    let later := m.set id { s with phase := .removed }
    some { later with activeStreams := Function.update m.activeStreams s.key none }
  else none

def forward (m : State) : Option State := match m.logCh with
  | [] => none
  | entry :: rest => some { m with logCh := rest, sent := m.sent ++ [entry] }

def step (m : State) : Label → Option State
  | .write key line => some { m with
      logs := Function.update m.logs key
        (Function.update (m.logs key) (m.current key) (m.logs key (m.current key) ++ [line])) }
  | .restart key => some { m with
      current := Function.update m.current key (m.current key + 1)
      logs := Function.update m.logs key (Function.update (m.logs key) (m.current key + 1) []) }
  | .tick pods => some (tick m pods)
  | .open_ id => (m.streams id).bind (openStream tailLines m id)
  | .check id => (m.streams id).bind (checkStream m id)
  | .emit id => (m.streams id).bind (emitStream m id)
  | .return_ id => (m.streams id).bind (returnStream m id)
  | .remove id => (m.streams id).bind (removeStream m id)
  | .forward => forward m

end Model

section Statement

def Stream.live (s : Stream) : Prop := s.phase ≠ .returned ∧ s.phase ≠ .removed

/-- One live stream for each key but cancelled ones, and no line sent twice. -/
structure Delivered (m : State) : Prop where
  single : ∀ id id' s s', m.streams id = some s → m.streams id' = some s' → s.live → s'.live → s.cancelled = false →
    s'.cancelled = false → s.key = s'.key → id = id'
  once : (m.sent.map WorkloadLogEntry.line).Nodup

def State.emitted (m : State) : List Line := (m.sent ++ m.logCh).map WorkloadLogEntry.line

/-- A deferred removal leaves the entry of a stream that still runs, and a log is opened past all that was read from it. -/
def Careful (tailLines : Nat) (m : State) : Label → Prop
  | .remove id => ∀ s other t, m.streams id = some s → m.activeStreams s.key = some other → m.streams other = some t →
      t.live → t.cancelled = true
  | .open_ id => ∀ s, m.streams id = some s → s.cancelled = false →
      (∀ line ∈ m.emitted, line.key = s.key → line.instance_ = m.current s.key → line.index < m.start tailLines s.key) ∧
      ∀ other t, m.streams other = some t → t.phase = .reading → t.key = s.key → t.instance_ = m.current s.key →
        t.next < m.start tailLines s.key
  | _ => True

end Statement

section Invariant
variable {m m' : State} {id : Nat} {s : Stream} {tailLines : Nat}

/-- The stream has a line in hand that it may yet send. -/
def Stream.pending (s : Stream) : Prop := s.phase = .reading

/-- The stream will read on. -/
def Stream.follows (s : Stream) : Prop := s.cancelled = false ∧ (s.phase = .top ∨ s.phase = .reading)

def Stream.same (s t : Stream) : Prop := s.key = t.key ∧ s.instance_ = t.instance_

/-- A stream that still runs is the one in the map; no line read twice is on its way, and one that reads on is ahead of all. -/
structure Good (m : State) : Prop where
  numbered : ∀ id s, m.streams id = some s → id < m.started
  own : ∀ id s, m.streams id = some s → s.live → s.cancelled = false → m.activeStreams s.key = some id
  fresh : ∀ id s, m.streams id = some s → s.pending → s.line ∉ m.emitted
  apart : ∀ id id' s s', m.streams id = some s → m.streams id' = some s' → id ≠ id' → s.pending → s'.pending → s.line ≠ s'.line
  ahead : ∀ id s, m.streams id = some s → s.follows →
    ∀ line ∈ m.emitted, line.key = s.key → line.instance_ = s.instance_ → line.index < s.next
  leads : ∀ id id' s t, m.streams id = some s → m.streams id' = some t → id ≠ id' → s.follows → t.pending → t.same s →
    t.next < s.next
  once : m.emitted.Nodup

theorem good_delivered (good : Good m) : Delivered m := by
  constructor
  · intro id id' s s' held held' live live' running running' same
    have first := good.own id s held live running
    have second := good.own id' s' held' live' running'
    rw [same, second] at first
    exact (Option.some.inj first).symm
  · exact good.once.sublist (List.Sublist.map _ (List.sublist_append_left _ _))

/-- One stream moved on, with the same lines sent. -/
theorem set_good (good : Good m) {s s' : Stream} (held : m.streams id = some s)
    (own : s'.live → s'.cancelled = false → m.activeStreams s'.key = some id)
    (fresh : s'.pending → s'.line ∉ m.emitted)
    (apart : ∀ id' t, m.streams id' = some t → id ≠ id' → s'.pending → t.pending → s'.line ≠ t.line)
    (ahead : s'.follows → ∀ line ∈ m.emitted, line.key = s'.key → line.instance_ = s'.instance_ → line.index < s'.next)
    (leads : ∀ id' t, m.streams id' = some t → id ≠ id' → s'.follows → t.pending → t.same s' → t.next < s'.next)
    (led : ∀ id' t, m.streams id' = some t → id ≠ id' → t.follows → s'.pending → s'.same t → s'.next < t.next) :
    Good (m.set id s') := by
  constructor
  · intro other t found
    rcases update_cases found with ⟨rfl, -⟩ | ⟨-, before⟩
    · exact good.numbered _ s held
    · exact good.numbered other t before
  · intro other t found
    rcases update_cases found with ⟨rfl, rfl⟩ | ⟨-, before⟩
    · exact own
    · exact good.own other t before
  · intro other t found
    rcases update_cases found with ⟨rfl, rfl⟩ | ⟨-, before⟩
    · exact fresh
    · exact good.fresh other t before
  · intro first second t t' found found' differ pending pending'
    rcases update_cases found with ⟨rfl, rfl⟩ | ⟨away, before⟩ <;> rcases update_cases found' with ⟨rfl, rfl⟩ | ⟨away', before'⟩
    · exact absurd rfl differ
    · exact apart second t' before' differ pending pending'
    · exact Ne.symm (apart first t before (Ne.symm differ) pending' pending)
    · exact good.apart first second t t' before before' differ pending pending'
  · intro other t found
    rcases update_cases found with ⟨rfl, rfl⟩ | ⟨-, before⟩
    · exact ahead
    · exact good.ahead other t before
  · intro first second t t' found found' differ follows pending same
    rcases update_cases found with ⟨rfl, rfl⟩ | ⟨away, before⟩ <;> rcases update_cases found' with ⟨rfl, rfl⟩ | ⟨away', before'⟩
    · exact absurd rfl differ
    · exact leads second t' before' differ follows pending same
    · exact led first t before (Ne.symm differ) follows pending same
    · exact good.leads first second t t' before before' differ follows pending same
  · exact good.once

theorem idle_good (good : Good m) {s s' : Stream} (held : m.streams id = some s)
    (own : s'.live → s'.cancelled = false → m.activeStreams s'.key = some id) (still : ¬ s'.pending) (done : ¬ s'.follows) :
    Good (m.set id s') := by
  apply set_good good held own
  · exact fun pending => absurd pending still
  · exact fun _ _ _ _ pending => absurd pending still
  · exact fun follows => absurd follows done
  · exact fun _ _ _ _ follows => absurd follows done
  · exact fun _ _ _ _ _ pending => absurd pending still

/-- A line more in the channel. -/
theorem send_good (good : Good m) (entry : WorkloadLogEntry) (new : entry.line ∉ m.emitted)
    (free : ∀ id s, m.streams id = some s → s.pending → s.line ≠ entry.line)
    (passed : ∀ id s, m.streams id = some s → s.follows → entry.line.key = s.key → entry.line.instance_ = s.instance_ →
      entry.line.index < s.next) : Good { m with logCh := m.logCh ++ [entry] } := by
  have emitted : State.emitted { m with logCh := m.logCh ++ [entry] } = m.emitted ++ [entry.line] := by
    simp [State.emitted]
  constructor
  · exact good.numbered
  · exact good.own
  · intro id s held pending listed
    rw [emitted, List.mem_append, List.mem_singleton] at listed
    cases listed with
    | inl earlier => exact good.fresh id s held pending earlier
    | inr here => exact free id s held pending here
  · exact good.apart
  · intro id s held follows line listed key instance_
    rw [emitted, List.mem_append, List.mem_singleton] at listed
    cases listed with
    | inl earlier => exact good.ahead id s held follows line earlier key instance_
    | inr here =>
      subst here
      exact passed id s held follows key instance_
  · exact good.leads
  · rw [emitted]
    exact List.nodup_append.mpr ⟨good.once, List.nodup_singleton _, fun line listed other here same =>
      new (List.mem_singleton.mp here ▸ same ▸ listed)⟩

theorem open_good (good : Good m) (held : m.streams id = some s)
    (careful : Careful tailLines m (.open_ id)) (moved : openStream tailLines m id s = some m') : Good m' := by
  unfold openStream at moved
  split at moved
  · rename_i opening
    cases moved
    have own : s.cancelled = false → m.activeStreams s.key = some id :=
      good.own id s held (by simp [Stream.live, opening])
    apply set_good good held
    · exact fun _ => own
    · exact fun pending => by cases pending
    · exact fun _ _ _ _ pending => by cases pending
    · exact fun follows => (careful s held follows.1).1
    · exact fun id' t found _ follows pending same => (careful s held follows.1).2 id' t found pending same.1 same.2
    · exact fun _ _ _ _ _ pending => by cases pending
  · cases moved

/-- Of the streams on one log, only one reads on. -/
theorem follows_unique (good : Good m) {id id' : Nat} {s t : Stream} (held : m.streams id = some s)
    (held' : m.streams id' = some t) (follows : s.follows) (follows' : t.follows) (same : s.key = t.key) : id = id' := by
  have live : ∀ u : Stream, u.follows → u.live := by
    rintro u ⟨-, top | reading⟩
    · simp [Stream.live, top]
    · simp [Stream.live, reading]
  exact (good_delivered good).single id id' s t held held' (live s follows) (live t follows') follows.1 follows'.1 same

theorem check_good (good : Good m) (held : m.streams id = some s)
    (moved : checkStream m id s = some m') : Good m' := by
  unfold checkStream at moved
  split at moved
  · rename_i free
    cases moved
    have follows : s.follows := ⟨free.2, .inl free.1⟩
    have ahead := good.ahead id s held follows
    apply set_good good held
    · exact fun _ => good.own id s held (by simp [Stream.live, free.1])
    · intro _ listed
      exact absurd (ahead _ listed rfl rfl) (Nat.lt_irrefl _)
    · intro id' t found differ _ pending same
      have less := good.leads id id' s t held found differ follows pending
        ⟨(congrArg Line.key same).symm, (congrArg Line.instance_ same).symm⟩
      have equal : s.next = t.next := congrArg Line.index same
      omega
    · exact fun _ => ahead
    · exact fun id' t found differ _ => good.leads id id' s t held found differ follows
    · exact fun id' t found differ other _ same => absurd (follows_unique good held found follows other same.1) differ
  · cases moved

theorem emit_good (good : Good m) (held : m.streams id = some s)
    (moved : emitStream m id s = some m') : Good m' := by
  unfold emitStream at moved
  split at moved
  · rename_i reading
    obtain ⟨content, -, rfl⟩ := Option.map_eq_some_iff.mp moved
    have passed : Good (m.set id { s with phase := .top, next := s.next + 1 }) := by
      apply set_good good held
      · exact fun _ => good.own id s held (by simp [Stream.live, reading])
      · exact fun pending => by cases pending
      · exact fun _ _ _ _ pending => by cases pending
      · intro follows line listed key instance_
        exact Nat.lt_succ_of_lt (good.ahead id s held ⟨follows.1, .inr reading⟩ line listed key instance_)
      · intro id' t found differ follows pending same
        exact Nat.lt_succ_of_lt (good.leads id id' s t held found differ ⟨follows.1, .inr reading⟩ pending same)
      · exact fun _ _ _ _ _ pending => by cases pending
    split
    · exact passed
    · apply send_good passed
      · exact good.fresh id s held reading
      · intro id' t found pending
        rcases update_cases found with ⟨-, rfl⟩ | ⟨away, before⟩
        · cases pending
        · exact good.apart id' id t s before held away pending reading
      · intro id' t found follows key instance_
        rcases update_cases found with ⟨-, rfl⟩ | ⟨away, before⟩
        · exact Nat.lt_succ_self _
        · exact good.leads id' id t s before held away follows reading ⟨key, instance_⟩
  · cases moved

theorem return_good (good : Good m) (held : m.streams id = some s)
    (moved : returnStream m id s = some m') : Good m' := by
  unfold returnStream at moved
  split at moved
  · cases moved
  · cases moved
    exact idle_good good held (fun live => absurd rfl live.1) (by simp [Stream.pending]) (by simp [Stream.follows])

theorem remove_good (good : Good m) (held : m.streams id = some s)
    (careful : Careful tailLines m (.remove id)) (moved : removeStream m id s = some m') : Good m' := by
  unfold removeStream at moved
  split at moved
  · rename_i returned
    cases moved
    have gone : Good (m.set id { s with phase := .removed }) :=
      idle_good good held (fun live => absurd rfl live.2) (by simp [Stream.pending]) (by simp [Stream.follows])
    refine ⟨gone.numbered, ?_, gone.fresh, gone.apart, gone.ahead, gone.leads, gone.once⟩
    intro other t found live running
    have entry := gone.own other t found live running
    by_cases here : t.key = s.key
    · rcases update_cases found with ⟨-, rfl⟩ | ⟨-, before⟩
      · exact absurd rfl live.2
      · have erased := careful s other t held (here ▸ entry) before live
        rw [running] at erased
        cases erased
    · exact (Function.update_of_ne here ..).trans entry
  · cases moved

theorem forward_good (good : Good m) (moved : forward m = some m') : Good m' := by
  unfold forward at moved
  split at moved
  · cases moved
  · rename_i entry rest queue
    cases moved
    have emitted : State.emitted { m with logCh := rest, sent := m.sent ++ [entry] } = m.emitted := by
      simp [State.emitted, queue]
    exact ⟨good.numbered, good.own, emitted ▸ good.fresh, good.apart, emitted ▸ good.ahead, good.leads, emitted ▸ good.once⟩

theorem start_good (good : Good m) (key : Key) : Good (startStream m key) := by
  unfold startStream
  split
  · exact good
  · rename_i absent
    have vacant : m.activeStreams key = none := by simpa using absent
    have read : ∀ {other : Nat} {t : Stream}, Function.update m.streams m.started (some ⟨key, false, .opening, 0, 0⟩) other = some t →
        other = m.started ∧ t = ⟨key, false, .opening, 0, 0⟩ ∨ m.streams other = some t := by
      intro other t found
      exact (update_cases found).imp_right And.right
    constructor
    · intro other t found
      rcases read found with ⟨rfl, -⟩ | before
      · exact Nat.lt_succ_self _
      · exact Nat.lt_succ_of_lt (good.numbered other t before)
    · intro other t found live running
      rcases read found with ⟨rfl, rfl⟩ | before
      · exact Function.update_self ..
      · have entry := good.own other t before live running
        have away : t.key ≠ key := by
          intro same
          rw [same, vacant] at entry
          cases entry
        exact (Function.update_of_ne away ..).trans entry
    · intro other t found pending
      rcases read found with ⟨rfl, rfl⟩ | before
      · cases pending
      · exact good.fresh other t before pending
    · intro first second t t' found found' differ pending pending'
      rcases read found with ⟨rfl, rfl⟩ | before
      · cases pending
      · rcases read found' with ⟨rfl, rfl⟩ | before'
        · cases pending'
        · exact good.apart first second t t' before before' differ pending pending'
    · intro other t found follows
      rcases read found with ⟨rfl, rfl⟩ | before
      · rcases follows.2 with top | reading
        · cases top
        · cases reading
      · exact good.ahead other t before follows
    · intro first second t t' found found' differ follows pending
      rcases read found with ⟨rfl, rfl⟩ | before
      · rcases follows.2 with top | reading
        · cases top
        · cases reading
      · rcases read found' with ⟨rfl, rfl⟩ | before'
        · cases pending
        · exact good.leads first second t t' before before' differ follows pending
    · exact good.once

theorem cancel_good (good : Good m) (gone : List String) : Good (cancelPods m gone) := by
  have read : ∀ {id : Nat} {t : Stream}, (cancelPods m gone).streams id = some t → ∃ s, m.streams id = some s ∧ s.phase = t.phase ∧
      s.line = t.line ∧ (t.cancelled = false → s.cancelled = false ∧ (s.key.pod ∈ gone → m.activeStreams s.key ≠ some id)) := by
    intro id t found
    obtain ⟨s, held, rfl⟩ := Option.map_eq_some_iff.mp found
    refine ⟨s, held, ?_⟩
    split
    · exact ⟨rfl, rfl, fun running => by cases running⟩
    · rename_i kept
      exact ⟨rfl, rfl, fun running => ⟨running, fun pod entry => kept ⟨pod, entry⟩⟩⟩
  have follows : ∀ {s t : Stream}, s.phase = t.phase → (t.cancelled = false → s.cancelled = false) → t.follows → s.follows := by
    intro s t phase running follows
    exact ⟨running follows.1, phase ▸ follows.2⟩
  constructor
  · intro id t found
    obtain ⟨s, held, -⟩ := read found
    exact good.numbered id s held
  · intro id t found live running
    obtain ⟨s, held, phase, line, kept⟩ := read found
    obtain ⟨running', away⟩ := kept running
    have entry := good.own id s held (by simpa [Stream.live, phase] using live) running'
    have key : s.key = t.key := congrArg Line.key line
    have stays : t.key.pod ∉ gone := fun pod => away (key ▸ pod) entry
    exact (if_neg stays).trans (key ▸ entry)
  · intro id t found pending
    obtain ⟨s, held, phase, line, -⟩ := read found
    exact line ▸ good.fresh id s held (phase.trans pending)
  · intro id id' t t' found found' differ pending pending'
    obtain ⟨s, held, phase, line, -⟩ := read found
    obtain ⟨s', held', phase', line', -⟩ := read found'
    exact line ▸ line' ▸ good.apart id id' s s' held held' differ (phase.trans pending) (phase'.trans pending')
  · intro id t found follows' line' listed key instance_
    obtain ⟨s, held, phase, line, kept⟩ := read found
    have bound := good.ahead id s held (follows phase (fun running => (kept running).1) follows') line' listed
      (key.trans (congrArg Line.key line).symm) (instance_.trans (congrArg Line.instance_ line).symm)
    have next : s.next = t.next := congrArg Line.index line
    omega
  · intro id id' t t' found found' differ follows' pending same
    obtain ⟨s, held, phase, line, kept⟩ := read found
    obtain ⟨s', held', phase', line', -⟩ := read found'
    have bound := good.leads id id' s s' held held' differ (follows phase (fun running => (kept running).1) follows')
      (phase'.trans pending)
      ⟨(congrArg Line.key line').trans (same.1.trans (congrArg Line.key line).symm),
        (congrArg Line.instance_ line').trans (same.2.trans (congrArg Line.instance_ line).symm)⟩
    have next : s.next = t.next := congrArg Line.index line
    have next' : s'.next = t'.next := congrArg Line.index line'
    omega
  · exact good.once

theorem tick_good (good : Good m) (pods : List Pod) : Good (tick m pods) := by
  have started : ∀ (keys : List Key) {m : State}, Good m → Good (keys.foldl startStream m) := by
    intro keys
    induction keys with
    | nil => exact fun good => good
    | cons key rest ih => exact fun good => ih (start_good good key)
  have cancelled := cancel_good good (m.knownPods.filter fun name => name ∉ pods.map Pod.name)
  apply started
  exact ⟨cancelled.numbered, cancelled.own, cancelled.fresh, cancelled.apart, cancelled.ahead, cancelled.leads, cancelled.once⟩

theorem step_good {a : Label} (good : Good m) (careful : Careful tailLines m a)
    (moved : step tailLines m a = some m') : Good m' := by
  cases a with
  | write key line =>
    cases moved
    exact ⟨good.numbered, good.own, good.fresh, good.apart, good.ahead, good.leads, good.once⟩
  | restart key =>
    cases moved
    exact ⟨good.numbered, good.own, good.fresh, good.apart, good.ahead, good.leads, good.once⟩
  | tick pods =>
    cases moved
    exact tick_good good pods
  | open_ id =>
    obtain ⟨s, held, later⟩ := Option.bind_eq_some_iff.mp moved
    exact open_good good held careful later
  | check id =>
    obtain ⟨s, held, later⟩ := Option.bind_eq_some_iff.mp moved
    exact check_good good held later
  | emit id =>
    obtain ⟨s, held, later⟩ := Option.bind_eq_some_iff.mp moved
    exact emit_good good held later
  | return_ id =>
    obtain ⟨s, held, later⟩ := Option.bind_eq_some_iff.mp moved
    exact return_good good held later
  | remove id =>
    obtain ⟨s, held, later⟩ := Option.bind_eq_some_iff.mp moved
    exact remove_good good held careful later
  | forward => exact forward_good good moved

theorem initial_good : Good initial := by
  constructor
  · exact fun id s held => by cases held
  · exact fun id s held => by cases held
  · exact fun id s held => by cases held
  · exact fun id id' s s' held => by cases held
  · exact fun id s held => by cases held
  · exact fun id id' s t held => by cases held
  · exact List.nodup_nil

end Invariant

section Conclusion

/-- In a run of careful steps every state has one stream for each key, and every line was sent at most once. -/
theorem careful_delivers (tailLines : Nat) (run : List Label) (m : State)
    (careful : Guarded (step tailLines) (Careful tailLines) initial run)
    (reached : exec (step tailLines) initial run = some m) : Delivered m := by
  have kept : ∀ m a m', Good m → Careful tailLines m a → step tailLines m a = some m' → Good m' :=
    fun m a m' => step_good
  exact good_delivered (guarded_invariant kept initial_good careful reached)

/-- The first stream of a container that has written a line. -/
def firstStream : List Label :=
  [.write ⟨"web", "app"⟩ "done", .tick [⟨"web", ["app"]⟩], .open_ 0, .check 0, .emit 0, .forward]

theorem first_delivers : ∃ m, exec (step 10) initial firstStream = some m ∧ Delivered m := by
  refine ⟨_, rfl, careful_delivers 10 firstStream _ ?_ rfl⟩
  refine ⟨trivial, fun m written => ⟨trivial, fun m ticked => ⟨?_, fun m opened => ⟨trivial, fun m checked =>
    ⟨trivial, fun m emitted => ⟨trivial, fun m sent => trivial⟩⟩⟩⟩⟩⟩
  cases written
  cases ticked
  intro s _ _
  refine ⟨fun line listed => absurd listed List.not_mem_nil, fun other t found reading => ?_⟩
  have single : Function.update (fun _ => none) 0 (some ⟨⟨"web", "app"⟩, false, .opening, 0, 0⟩) other = some t := found
  rcases update_cases single with ⟨-, rfl⟩ | ⟨-, nothing⟩
  · cases reading
  · cases nothing

/-- A container writes a line, which reaches the client, and finishes; the next tick streams its log again. -/
def finished : List Label :=
  [.write ⟨"web", "app"⟩ "done", .tick [⟨"web", ["app"]⟩], .open_ 0, .check 0, .emit 0, .forward, .return_ 0, .remove 0,
    .tick [⟨"web", ["app"]⟩], .open_ 1, .check 1, .emit 1, .forward]

theorem replayed : ¬ ∀ run m, exec (step 10) initial run = some m → Delivered m := by
  intro all
  have once := (all finished _ rfl).once
  revert once
  decide

end Conclusion

end WorkloadLogs
