import Radar.Base.Runs

/- pkg/k8score/cache.go: how the typed cache starts, and what it says of the kinds that are synced after the critical
   ones. A deferred kind is one of the configured ones, and the events sync in the background. -/
namespace CacheStartup
open Runs
variable {κ : Type} [DecidableEq κ]

section Model

structure InformerEntry (κ : Type) where
  key : κ
  deferred : Bool
  isEvent : Bool

/-- The enabled informers, and whether the durations are set. -/
structure CacheConfig (κ : Type) where
  entries : List (InformerEntry κ)
  minimalSet : List κ
  patienceWindow : Bool
  syncTimeout : Bool
  deferredSyncTimeout : Bool

variable (cfg : CacheConfig κ)

def keys (which : InformerEntry κ → Bool) : List κ := (cfg.entries.filter which).map InformerEntry.key

def criticalKeys : List κ := keys cfg fun e => !e.deferred

def deferredKeys : List κ := keys cfg fun e => e.deferred && !e.isEvent

def backgroundKeys : List κ := keys cfg fun e => e.deferred && e.isEvent

inductive Waiter where
  | waiting | leaving | gone
  deriving DecidableEq

/-- What NewResourceCache returns; awaited are the deferred keys and those promoted. -/
structure ResourceCache (κ : Type) where
  awaited : List κ
  deferredSynced : κ → Bool
  deferredFailed : Bool
  closed : Nat
  waiter : Waiter
  background : Bool

/-- Once phase 1 has ended, the informers that had synced by then are kept. -/
structure State (κ : Type) where
  hasSynced : κ → Bool
  stopped : Bool
  phase1 : Option (κ → Bool)
  cache : Option (ResourceCache κ)

inductive PhaseEnd where
  | synced | patience | timedOut

inductive Step (κ : Type) where
  | finish (key : κ)
  | stop
  | phase1 (ended : PhaseEnd)
  | promote (pending : κ → Bool)
  | poll (seen : List κ)
  | deadline
  | abort
  | close
  | backgroundSynced
  | backgroundFailed

def mayEnd (hasSynced : κ → Bool) : PhaseEnd → Bool
  | .synced => (criticalKeys cfg).all hasSynced
  | .patience => cfg.patienceWindow && !cfg.minimalSet.isEmpty &&
      ((criticalKeys cfg).filter fun k => k ∈ cfg.minimalSet).all hasSynced
  | .timedOut => cfg.syncTimeout

def newResourceCache (promoted : List κ) : ResourceCache κ := let awaited := deferredKeys cfg ++ promoted
  { awaited := awaited
    deferredSynced := fun _ => false
    deferredFailed := false
    closed := if awaited = [] then 1 else 0
    waiter := if awaited = [] then .gone else .waiting
    background := backgroundKeys cfg ≠ [] }

def ResourceCache.mark (c : ResourceCache κ) (seen : List κ) : ResourceCache κ :=
  { c with deferredSynced := fun k => c.deferredSynced k || seen.contains k }

def ResourceCache.giveUp (c : ResourceCache κ) : ResourceCache κ :=
  { c with deferredFailed := true, waiter := .leaving }

/-- The steps of the waiters. Every informer is asked on its own, so that a poll sees some of those that have synced. -/
def advance (s : State κ) (c : ResourceCache κ) : Step κ → Option (ResourceCache κ)
  | .poll seen =>
    if c.waiter = .waiting ∧ ∀ k ∈ seen, k ∈ c.awaited ∧ s.hasSynced k then
      let c' := c.mark seen
      some (if c.awaited.all c'.deferredSynced then { c' with waiter := .leaving } else c')
    else none
  | .deadline => if c.waiter = .waiting ∧ cfg.deferredSyncTimeout then some c.giveUp else none
  | .abort => if c.waiter = .waiting ∧ s.stopped then some c.giveUp else none
  | .close => if c.waiter = .leaving then some { c with waiter := .gone, closed := c.closed + 1 } else none
  | .backgroundSynced =>
    if c.background ∧ ∀ k ∈ backgroundKeys cfg, s.hasSynced k then
      some { c.mark (backgroundKeys cfg) with background := false }
    else none
  | .backgroundFailed =>
    if c.background ∧ s.stopped then some { c with deferredFailed := true, background := false } else none
  | _ => none

/-- Every critical informer is asked once phase 1 has ended, and the pending ones are promoted. One that had synced by
    the end is not pending, and one that is not pending has synced. -/
def step (s : State κ) : Step κ → Option (State κ)
  | .finish key => some { s with hasSynced := fun k => s.hasSynced k || k == key }
  | .stop => some { s with stopped := true }
  | .phase1 ended =>
    if s.phase1.isNone ∧ mayEnd cfg s.hasSynced ended then some { s with phase1 := some s.hasSynced } else none
  | .promote pending => s.phase1.bind fun early =>
    if s.cache.isNone ∧ ∀ k ∈ criticalKeys cfg, if pending k then early k = false else s.hasSynced k then
      some { s with cache := some (newResourceCache cfg ((criticalKeys cfg).filter pending)) }
    else none
  | a => s.cache.bind fun c => (advance cfg s c a).map fun c' => { s with cache := some c' }

def start : State κ := ⟨fun _ => false, false, none, none⟩

variable (c : ResourceCache κ) (key : κ)

def isEnabled : Bool := cfg.entries.any fun e => e.key == key

def deferredType : Bool := cfg.entries.any fun e => e.key == key && e.deferred

def isReady : Bool := isEnabled cfg key && (!deferredType cfg key || c.deferredSynced key)

def isDeferredPending : Bool :=
  isEnabled cfg key && deferredType cfg key && !c.deferredFailed && !c.deferredSynced key

def isDeferredSynced : Bool := 0 < c.closed && !c.deferredFailed

end Model

section Statement
variable (cfg : CacheConfig κ)

/-- A waiter runs that can make the key ready. -/
def Awaits (c : ResourceCache κ) (k : κ) : Prop :=
  (k ∈ deferredKeys cfg ∧ c.waiter = .waiting) ∨ (k ∈ backgroundKeys cfg ∧ c.background = true)

structure Truthful (hasSynced : κ → Bool) (c : ResourceCache κ) : Prop where
  ready : ∀ k, deferredType cfg k = true → isReady cfg c k = true → hasSynced k = true
  pending : ∀ k, deferredType cfg k = true →
    (isDeferredPending cfg c k = true ↔ isReady cfg c k = false ∧ Awaits cfg c k)
  closed : c.closed = if c.waiter = .gone then 1 else 0
  synced : isDeferredSynced c = true → ∀ k ∈ c.awaited, hasSynced k = true

/-- After the step the cache is truthful, and what was ready still is. -/
def Kept (s : State κ) (_ : Step κ) (t : State κ) : Prop :=
  (∀ c, t.cache = some c → Truthful cfg t.hasSynced c) ∧
    ∀ c, s.cache = some c → ∃ c', t.cache = some c' ∧ ∀ k, isReady cfg c k = true → isReady cfg c' k = true

/-- No waiter gives up while the other one still has a kind to wait for. -/
structure Spares (c : ResourceCache κ) (a : Step κ) : Prop where
  events : a = .deadline ∨ a = .abort → c.background = true → ∀ k ∈ backgroundKeys cfg, c.deferredSynced k = true
  others : a = .backgroundFailed → c.waiter = .waiting → ∀ k ∈ deferredKeys cfg, c.deferredSynced k = true

def Alone (s : State κ) (a : Step κ) : Prop :=
  ∀ c, s.cache = some c → (advance cfg s c a).isSome → Spares cfg c a

end Statement

section Conclusion
variable {cfg : CacheConfig κ} {s t : State κ} {c : ResourceCache κ}

structure Sound (cfg : CacheConfig κ) (hasSynced : κ → Bool) (c : ResourceCache κ) : Prop where
  marked : ∀ k, c.deferredSynced k = true → hasSynced k = true
  closed : c.closed = if c.waiter = .gone then 1 else 0
  awaits : ∀ k ∈ deferredKeys cfg, k ∈ c.awaited
  waits : c.deferredFailed = false → ∀ k ∈ c.awaited, c.deferredSynced k = false → c.waiter = .waiting
  runs : c.deferredFailed = false → ∀ k ∈ backgroundKeys cfg, c.deferredSynced k = false → c.background = true
  failed : c.deferredFailed = true → ∀ k, c.deferredSynced k = false → ¬ Awaits cfg c k

theorem deferred_cases {k : κ} : deferredType cfg k = true ↔ k ∈ deferredKeys cfg ∨ k ∈ backgroundKeys cfg := by
  simp only [deferredType, deferredKeys, backgroundKeys, keys, List.any_eq_true, List.mem_map, List.mem_filter]
  constructor
  · rintro ⟨e, member, same⟩
    cases event : e.isEvent <;> simp_all <;> grind
  · grind

theorem enabled_of_deferred {k : κ} (deferred : deferredType cfg k = true) : isEnabled cfg k = true := by
  grind [isEnabled, deferredType]

theorem truthful_of_sound {hasSynced : κ → Bool} (sound : Sound cfg hasSynced c) : Truthful cfg hasSynced c where
  ready := by
    intro k deferred ready
    exact sound.marked k (by simpa [isReady, deferred, enabled_of_deferred deferred] using ready)
  pending := by
    intro k deferred
    simp only [isDeferredPending, isReady, deferred, enabled_of_deferred deferred, Bool.true_and, Bool.not_true,
      Bool.false_or, Bool.and_eq_true, Bool.not_eq_true']
    constructor
    · rintro ⟨fine, unready⟩
      refine ⟨unready, (deferred_cases.mp deferred).imp (fun member => ?_) fun member => ?_⟩
      · exact ⟨member, sound.waits fine k (sound.awaits k member) unready⟩
      · exact ⟨member, sound.runs fine k member unready⟩
    · rintro ⟨unready, awaits⟩
      exact ⟨Bool.eq_false_iff.mpr fun failed => sound.failed failed k unready awaits, unready⟩
  closed := sound.closed
  synced := by
    intro done k member
    simp only [isDeferredSynced, Bool.and_eq_true, decide_eq_true_eq, Bool.not_eq_true'] at done
    apply sound.marked
    by_contra unready
    have waiting := sound.waits done.2 k member (Bool.eq_false_iff.mpr unready)
    have closed := sound.closed
    rw [waiting, if_neg (by decide)] at closed
    omega

omit [DecidableEq κ] in
theorem new_sound (hasSynced : κ → Bool) (promoted : List κ) :
    Sound cfg hasSynced (newResourceCache cfg promoted) := by
  constructor <;> simp only [newResourceCache] <;> grind

theorem advance_sound {a : Step κ} {c' : ResourceCache κ} (sound : Sound cfg s.hasSynced c)
    (taken : advance cfg s c a = some c') (spares : Spares cfg c a) :
    Sound cfg s.hasSynced c' ∧ ∀ k, c.deferredSynced k = true → c'.deferredSynced k = true := by
  obtain ⟨marked, closed, awaits, waits, runs, failed⟩ := sound
  obtain ⟨events, others⟩ := spares
  unfold Awaits at failed
  cases a with
  | finish | stop | phase1 | promote => cases taken
  | poll | backgroundSynced =>
    simp only [advance] at taken
    split at taken <;> cases taken
    refine ⟨?_, by grind [ResourceCache.mark]⟩
    constructor <;> simp only [ResourceCache.mark, Awaits] <;> grind
  | _ =>
    simp only [advance] at taken
    split at taken <;> cases taken
    refine ⟨?_, fun _ => id⟩
    constructor <;> simp only [ResourceCache.giveUp, Awaits] <;> grind

def Inv (cfg : CacheConfig κ) (s : State κ) : Prop := ∀ c, s.cache = some c → Sound cfg s.hasSynced c

theorem step_kept {a : Step κ} (inv : Inv cfg s) (alone : Alone cfg s a) (taken : step cfg s a = some t) :
    Inv cfg t ∧ Kept cfg s a t := by
  have settled (sound : Inv cfg t) (kept : ∀ c, s.cache = some c → ∃ c', t.cache = some c' ∧
      ∀ k, c.deferredSynced k = true → c'.deferredSynced k = true) : Inv cfg t ∧ Kept cfg s a t := by
    refine ⟨sound, fun c cached => truthful_of_sound (sound c cached), fun c cached => ?_⟩
    obtain ⟨c', cached', more⟩ := kept c cached
    exact ⟨c', cached', fun k => by grind [isReady]⟩
  cases a with
  | finish key =>
    cases taken
    refine settled (fun c cached => ?_) fun c cached => ⟨c, cached, fun _ => id⟩
    obtain ⟨marked, closed, awaits, waits, runs, failed⟩ := inv c cached
    exact ⟨fun k ready => by simp [marked k ready], closed, awaits, waits, runs, failed⟩
  | stop =>
    cases taken
    exact settled inv fun c cached => ⟨c, cached, fun _ => id⟩
  | phase1 ended =>
    simp only [step] at taken
    split at taken <;> cases taken
    exact settled inv fun c cached => ⟨c, cached, fun _ => id⟩
  | promote pending =>
    obtain ⟨early, -, made⟩ := Option.bind_eq_some_iff.mp taken
    split at made <;> cases made
    rename_i free
    refine settled (fun c made => ?_) fun c cached => by simp [cached] at free
    cases made
    exact new_sound _ _
  | _ =>
    obtain ⟨c, cached, made⟩ := Option.bind_eq_some_iff.mp taken
    obtain ⟨c', moved, rfl⟩ := Option.map_eq_some_iff.mp made
    obtain ⟨sound, more⟩ := advance_sound (inv c cached) moved (alone c cached (by rw [moved]; rfl))
    refine settled (fun d same => Option.some.inj same ▸ sound) fun d cached' => ⟨c', rfl, ?_⟩
    exact Option.some.inj (cached.symm.trans cached') ▸ more

/-- A flag that is set while a waiter still waits for a kind is not truthful. -/
theorem ready_of_failed {hasSynced : κ → Bool} (truthful : Truthful cfg hasSynced c) (failed : c.deferredFailed = true)
    {k : κ} (awaits : Awaits cfg c k) : c.deferredSynced k = true := by
  have deferred := deferred_cases.mpr (awaits.imp And.left And.left)
  by_contra unready
  have pending := (truthful.pending k deferred).mpr ⟨by grind [isReady], awaits⟩
  simp [isDeferredPending, failed] at pending

theorem alone_of_kept {a : Step κ} (kept : ∀ t, step cfg s a = some t → Kept cfg s a t) : Alone cfg s a := by
  intro c cached enabled
  obtain ⟨c', moved⟩ := Option.isSome_iff_exists.mp enabled
  constructor
  · intro gives running k member
    have stepped : step cfg s a = some { s with cache := some c' } := by
      rcases gives with rfl | rfl <;> simp [step, cached, moved]
    have given : c' = c.giveUp := by
      rcases gives with rfl | rfl <;> grind [advance]
    subst given
    exact ready_of_failed ((kept _ stepped).1 _ rfl) rfl (.inr ⟨member, running⟩)
  · rintro rfl waiting k member
    have stepped : step cfg s .backgroundFailed = some { s with cache := some c' } := by simp [step, cached, moved]
    simp only [advance] at moved
    split at moved <;> cases moved
    exact ready_of_failed ((kept _ stepped).1 _ rfl) rfl (.inl ⟨member, waiting⟩)

/-- Readiness is truthful through a startup exactly if no waiter gives up while the other one still waits. -/
theorem startup_truthful_iff (cfg : CacheConfig κ) (steps : List (Step κ)) :
    Throughout (step cfg) (Kept cfg) start steps ↔ Guarded (step cfg) (Alone cfg) start steps := by
  apply throughout_iff_guarded fun s a t inv alone taken => (step_kept inv alone taken).1
  · intro s a inv
    exact ⟨fun alone t taken => (step_kept inv alone taken).2, alone_of_kept⟩
  · intro c cached
    cases cached

/-- Pods and the events are deferred; the pods never sync. -/
def stuck : CacheConfig Bool := ⟨[⟨false, true, false⟩, ⟨true, true, true⟩], [], false, false, true⟩

theorem events_given_up : ∃ s c,
    exec (step stuck) start [.phase1 .synced, .promote fun _ => false, .poll [], .deadline] = some s ∧
    s.cache = some c ∧ isReady stuck c true = false ∧ Awaits stuck c true ∧ isDeferredPending stuck c true = false :=
  ⟨_, _, rfl, rfl, rfl, .inr ⟨by decide, rfl⟩, rfl⟩

end Conclusion

end CacheStartup
