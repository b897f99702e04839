import Mathlib.Data.List.Basic
import Radar.Base.Runs

/- pkg/k8score/dynamic_cache.go: which informers the dynamic cache starts, and which of them serve
   a read. An informer is known by its key; its store and its sync are not looked at here. -/
namespace DynamicCache
open List

structure GVR where
  group : String
  version : String
  resource : String
  deriving DecidableEq

/-- A key without a namespace is a cluster-wide watch. -/
structure InformerKey where
  gvr : GVR
  ns : String
  deriving DecidableEq

variable {informers : List InformerKey} {ns : String} {gvr : GVR}

structure APIResource where
  group : String
  version : String
  name : String
  namespaced : Bool

/-- `resources` is none where the API resources cannot be listed. -/
structure Discovery where
  supportsWatchGVR : GVR → Bool
  resources : Option (List APIResource)

/-- NewDynamicResourceCache refuses a forced mode that names no namespace. -/
structure DynamicCacheConfig where
  discovery : Option Discovery
  namespaceScoped : Bool
  namespace_ : String
  namespaceFallback : String
  named : namespaceScoped = true → namespace_ ≠ ""

structure ProbeError where
  auth : Bool
  text : String

/-- What listing one object gives in a namespace, the empty one being the whole cluster. -/
abbrev Probe := String → Option ProbeError

section Cache
variable (config : DynamicCacheConfig)

def gvrIsNamespaced (gvr : GVR) : Bool := match config.discovery.bind (·.resources) with
  | none => true
  | some resources =>
    match resources.find? fun res =>
      res.group == gvr.group && res.version == gvr.version && res.name == gvr.resource with
    | none => true
    | some res => res.namespaced

/-- Errors that are not about access fail open. -/
def classifyScope (ns : String) : Option ProbeError → Except ProbeError String
  | none => .ok ns
  | some err => if err.auth then .error err else .ok ns

def probeScope (gvr : GVR) (preferredNS : String) (listProbe : Probe) : Except ProbeError String :=
  if config.namespaceScoped = true ∧ config.namespace_ ≠ "" then
    classifyScope config.namespace_ (listProbe config.namespace_)
  else
    match listProbe "" with
    | none => .ok ""
    | some err =>
      if err.auth = false then .ok ""
      else if gvrIsNamespaced config gvr = false then .error err
      else
        let fallbackNS := if preferredNS = "" then config.namespaceFallback else preferredNS
        if fallbackNS = "" then .error err else classifyScope fallbackNS (listProbe fallbackNS)

def supportsWatch (gvr : GVR) : Bool := match config.discovery with
  | none => true
  | some discovery => discovery.supportsWatchGVR gvr

def hasCoveringInformer (informers : List InformerKey) (gvr : GVR) (ns : String) : Bool :=
  if ⟨gvr, ""⟩ ∈ informers then true
  else if ns = "" then false
  else decide (⟨gvr, ns⟩ ∈ informers)

/-- A cluster-wide watch takes the place of the watches of single namespaces. -/
def startWatching (informers : List InformerKey) (gvr : GVR) (scopeNS : String) : List InformerKey :=
  if ⟨gvr, scopeNS⟩ ∈ informers then informers
  else if scopeNS ≠ "" then
    if ⟨gvr, ""⟩ ∈ informers then informers else informers ++ [⟨gvr, scopeNS⟩]
  else informers.filter (fun key => !(decide (key.gvr = gvr) && key.ns != "")) ++ [⟨gvr, ""⟩]

def readEntries (informers : List InformerKey) (gvr : GVR) (ns : String) : List InformerKey :=
  if ⟨gvr, ""⟩ ∈ informers then [⟨gvr, ""⟩]
  else if ns ≠ "" then
    if ⟨gvr, ns⟩ ∈ informers then [⟨gvr, ns⟩] else []
  else if config.namespaceFallback = "" then []
  else informers.filter fun key => decide (key.gvr = gvr)

def gvrText (gvr : GVR) : String := gvr.resource ++ "." ++ gvr.group ++ "/" ++ gvr.version

/-- The call with the answers its probes get. Waiting for the discovery only repeats the check. -/
def ensureWatching (informers : List InformerKey) (gvr : GVR) (preferredNS : String)
    (listProbe : Probe) : Except String (List InformerKey) :=
  if supportsWatch config gvr = false then
    .error ("resource " ++ gvrText gvr ++ " does not support list/watch")
  else if hasCoveringInformer informers gvr preferredNS then .ok informers
  else
    match probeScope config gvr preferredNS listProbe with
    | .error err => .error ("no access to " ++ gvrText gvr ++ ": " ++ err.text)
    | .ok scopeNS => .ok (startWatching informers gvr scopeNS)

end Cache

/- The informers, and the requests that ensureWatching has granted. -/
structure State where
  informers : List InformerKey
  granted : List (GVR × String)

inductive Call where
  | startWatching (gvr : GVR) (scopeNS : String)
  | ensureWatching (gvr : GVR) (preferredNS : String) (listProbe : Probe)

def State.new : State := ⟨[], []⟩

def step (config : DynamicCacheConfig) (s : State) : Call → Option State
  | .startWatching gvr scopeNS => some { s with informers := startWatching s.informers gvr scopeNS }
  | .ensureWatching gvr ns listProbe =>
    match ensureWatching config s.informers gvr ns listProbe with
    | .error _ => some s
    | .ok informers => some ⟨informers, (gvr, ns) :: s.granted⟩

/-- A resource type is watched in one of the two ways only. -/
def NeverBoth (informers : List InformerKey) : Prop :=
  ∀ gvr ns, ⟨gvr, ""⟩ ∈ informers → ns ≠ "" → ⟨gvr, ns⟩ ∉ informers

/-- With a fallback namespace configured, a read of all namespaces is a read of the watched
ones. -/
def Includes (config : DynamicCacheConfig) (scope ns : String) : Prop :=
  scope = "" ∨ scope = ns ∨ ns = "" ∧ config.namespaceFallback ≠ ""

def Served (config : DynamicCacheConfig) (informers : List InformerKey) (gvr : GVR)
    (ns : String) : Prop :=
  ∃ key ∈ readEntries config informers gvr ns, key.gvr = gvr ∧ Includes config key.ns ns

/-- No type is watched both ways, and no read is promised that finds nothing. -/
structure Honest (config : DynamicCacheConfig) (s : State) : Prop where
  once : NeverBoth s.informers
  covered : ∀ gvr ns, hasCoveringInformer s.informers gvr ns = true → Served config s.informers gvr ns
  ensured : ∀ gvr ns, (gvr, ns) ∈ s.granted → Served config s.informers gvr ns

/-- A forced namespace is watched in the place of the one that was asked for. -/
def Diverted (config : DynamicCacheConfig) (s : State) (gvr : GVR) (ns : String)
    (listProbe : Probe) : Prop :=
  config.namespaceScoped = true ∧ ns ≠ config.namespace_ ∧
    (ns = "" → config.namespaceFallback = "") ∧ supportsWatch config gvr = true ∧
    hasCoveringInformer s.informers gvr ns = false ∧
    ∀ err, listProbe config.namespace_ = some err → err.auth = false

def Undiverted (config : DynamicCacheConfig) (s : State) : Call → Prop
  | .startWatching _ _ => True
  | .ensureWatching gvr ns listProbe => ¬ Diverted config s gvr ns listProbe

section Coverage

/-- The abstract meaning of the key set: what a read in a namespace can rest on. -/
def Covers (informers : List InformerKey) (gvr : GVR) (ns : String) : Prop :=
  ⟨gvr, ""⟩ ∈ informers ∨ ⟨gvr, ns⟩ ∈ informers

def Watched (informers : List InformerKey) (gvr : GVR) : Prop := ∃ ns, ⟨gvr, ns⟩ ∈ informers

theorem covering_iff (informers : List InformerKey) (gvr : GVR) (ns : String) :
    hasCoveringInformer informers gvr ns = true ↔ Covers informers gvr ns := by
  unfold hasCoveringInformer Covers
  by_cases wide : ⟨gvr, ""⟩ ∈ informers
  · simp [wide]
  · by_cases everywhere : ns = ""
    · simp [wide, everywhere]
    · simp [wide, everywhere]

theorem served_iff (config : DynamicCacheConfig) (informers : List InformerKey) (gvr : GVR)
    (ns : String) : Served config informers gvr ns ↔ Covers informers gvr ns ∨
        ns = "" ∧ config.namespaceFallback ≠ "" ∧ Watched informers gvr := by
  unfold Served readEntries Covers
  by_cases wide : ⟨gvr, ""⟩ ∈ informers
  · simp [wide, Includes]
  · rw [if_neg wide]
    by_cases everywhere : ns = ""
    · rw [if_neg (not_not.mpr everywhere)]
      by_cases strict : config.namespaceFallback = ""
      · simp [strict, wide, everywhere]
      · rw [if_neg strict]
        constructor
        · rintro ⟨key, member, own, _⟩
          have member' := (mem_filter.mp member).1
          exact .inr ⟨everywhere, strict, key.ns, own ▸ member'⟩
        · rintro ((absurd_ | absurd_) | ⟨-, -, scope, member⟩)
          · exact absurd absurd_ wide
          · exact absurd (everywhere ▸ absurd_) wide
          · exact ⟨⟨gvr, scope⟩, mem_filter.mpr ⟨member, by simp⟩, rfl,
              .inr (.inr ⟨everywhere, strict⟩)⟩
    · rw [if_pos everywhere]
      by_cases single : ⟨gvr, ns⟩ ∈ informers
      · simp [single, Includes]
      · simp [single, wide, everywhere]

/-- What starting a watch can do to the set of keys. -/
theorem start_cases (informers : List InformerKey) (gvr : GVR) (scope : String) :
    (Covers informers gvr scope ∧ startWatching informers gvr scope = informers) ∨
      (⟨gvr, ""⟩ ∉ informers ∧ scope ≠ "" ∧
        startWatching informers gvr scope = informers ++ [⟨gvr, scope⟩]) ∨
      (⟨gvr, ""⟩ ∉ informers ∧ scope = "" ∧ ∀ key, key ∈ startWatching informers gvr scope ↔
        key ∈ informers ∧ ¬ (key.gvr = gvr ∧ key.ns ≠ "") ∨ key = ⟨gvr, ""⟩) := by
  unfold startWatching
  by_cases present : ⟨gvr, scope⟩ ∈ informers
  · exact .inl ⟨.inr present, if_pos present⟩
  · rw [if_neg present]
    by_cases everywhere : scope = ""
    · subst everywhere
      refine .inr (.inr ⟨present, rfl, fun key => ?_⟩)
      simp [mem_append, mem_filter, imp_iff_not_or]
    · rw [if_pos everywhere]
      by_cases wide : ⟨gvr, ""⟩ ∈ informers
      · exact .inl ⟨.inl wide, if_pos wide⟩
      · exact .inr (.inl ⟨wide, everywhere, if_neg wide⟩)

theorem start_neverBoth (once : NeverBoth informers) (gvr : GVR)
    (scope : String) : NeverBoth (startWatching informers gvr scope) := by
  rcases start_cases informers gvr scope with ⟨-, same⟩ | ⟨narrow, single, grown⟩ | ⟨-, -, members⟩
  · exact same.symm ▸ once
  · rw [grown]
    intro gvr' ns wide named member
    rw [mem_append, mem_singleton] at wide member
    rcases wide with wide | wide
    · rcases member with member | member
      · exact once gvr' ns wide named member
      · injection member with own
        exact narrow (own ▸ wide)
    · injection wide with _ empty
      exact single empty.symm
  · intro gvr' ns wide named member
    rcases (members _).mp wide with ⟨wide, -⟩ | wide
    · rcases (members _).mp member with ⟨member, -⟩ | member
      · exact once gvr' ns wide named member
      · injection member with _ empty
        exact named empty
    · injection wide with own
      rcases (members _).mp member with ⟨-, kept⟩ | member
      · exact kept ⟨own, named⟩
      · injection member with _ empty
        exact named empty

/-- What was covered stays covered, whatever is started. -/
theorem start_covers {gvr' : GVR} (before : Covers informers gvr' ns) (gvr : GVR) (scope : String) :
    Covers (startWatching informers gvr scope) gvr' ns := by
  rcases start_cases informers gvr scope with ⟨-, same⟩ | ⟨-, -, grown⟩ | ⟨-, -, members⟩
  · exact same.symm ▸ before
  · rw [grown]
    exact before.imp (mem_append_left _) (mem_append_left _)
  · by_cases own : gvr' = gvr
    · exact .inl ((members _).mpr (.inr (own ▸ rfl)))
    · have kept : ∀ scope', ⟨gvr', scope'⟩ ∈ informers →
          ⟨gvr', scope'⟩ ∈ startWatching informers gvr scope :=
        fun scope' member => (members _).mpr (.inl ⟨member, fun both => own both.1⟩)
      exact before.imp (kept "") (kept ns)

theorem start_scope (informers : List InformerKey) (gvr : GVR) (scope : String) :
    Covers (startWatching informers gvr scope) gvr scope := by
  rcases start_cases informers gvr scope with ⟨covers, same⟩ | ⟨-, -, grown⟩ | ⟨-, -, members⟩
  · exact same.symm ▸ covers
  · exact .inr (grown ▸ mem_append_right _ (mem_singleton_self _))
  · exact .inl ((members _).mpr (.inr rfl))

theorem start_only {scope ns : String} (after : Covers (startWatching informers gvr scope) gvr ns)
    (before : ¬ Covers informers gvr ns) : scope = "" ∨ scope = ns := by
  rcases start_cases informers gvr scope with ⟨-, same⟩ | ⟨-, single, grown⟩ | ⟨-, everywhere, -⟩
  · exact absurd (same ▸ after) before
  · rw [grown] at after
    unfold Covers at after before
    rw [mem_append, mem_append, mem_singleton, mem_singleton] at after
    rcases after with (after | after) | (after | after)
    · exact absurd (.inl after) before
    · injection after with _ empty
      exact absurd empty.symm single
    · exact absurd (.inr after) before
    · injection after with _ here
      exact .inr here.symm
  · exact .inl everywhere

theorem covers_watched (covers : Covers informers gvr ns) : Watched informers gvr :=
  covers.elim (fun wide => ⟨"", wide⟩) (fun single => ⟨ns, single⟩)

theorem start_watched {gvr' : GVR} (before : Watched informers gvr') (gvr : GVR) (scope : String) :
    Watched (startWatching informers gvr scope) gvr' := by
  obtain ⟨ns, member⟩ := before
  exact covers_watched (start_covers (.inr member) gvr scope)

theorem start_served {config : DynamicCacheConfig} {gvr' : GVR}
    (before : Served config informers gvr' ns) (gvr : GVR) (scope : String) :
    Served config (startWatching informers gvr scope) gvr' ns := by
  rw [served_iff] at before ⊢
  exact before.imp (fun covers => start_covers covers gvr scope)
    fun ⟨everywhere, fallback, watched⟩ => ⟨everywhere, fallback, start_watched watched gvr scope⟩

end Coverage

section Scope
variable {config : DynamicCacheConfig} {listProbe : Probe} {informers' : List InformerKey}

theorem classify_iff (ns scope : String) (err : Option ProbeError) :
    classifyScope ns err = .ok scope ↔ scope = ns ∧ ∀ e, err = some e → e.auth = false := by
  cases err with
  | none =>
    simp only [classifyScope, Except.ok.injEq, reduceCtorEq, false_implies, implies_true, and_true]
    exact eq_comm
  | some e =>
    simp only [classifyScope, Option.some.injEq, forall_eq']
    cases auth : e.auth with
    | false => simpa using eq_comm
    | true => simp

theorem forced_scope (forced : config.namespaceScoped = true) (gvr : GVR) (ns scope : String)
    (listProbe : Probe) : probeScope config gvr ns listProbe = .ok scope ↔
      scope = config.namespace_ ∧ ∀ e, listProbe config.namespace_ = some e → e.auth = false := by
  rw [probeScope, if_pos ⟨forced, config.named forced⟩, classify_iff]

/-- Outside the forced mode the scope is the cluster, what was asked for, or the fallback. -/
theorem open_scope (unforced : config.namespaceScoped = false) {ns scope : String}
    (found : probeScope config gvr ns listProbe = .ok scope) :
    scope = "" ∨ scope = ns ∨ ns = "" ∧ config.namespaceFallback ≠ "" := by
  rw [probeScope, if_neg (by simp [unforced])] at found
  split at found
  next => exact .inl (Except.ok.inj found).symm
  next =>
    split at found
    next => exact .inl (Except.ok.inj found).symm
    next =>
      split at found
      next => simp at found
      next =>
        dsimp only at found
        by_cases everywhere : ns = ""
        · rw [if_pos everywhere] at found
          split at found
          next => simp at found
          next configured => exact .inr (.inr ⟨everywhere, configured⟩)
        · rw [if_neg everywhere, if_neg everywhere, classify_iff] at found
          exact .inr (.inl found.1)

/-- What a granted call has done. -/
theorem ensure_cases (granted : ensureWatching config informers gvr ns listProbe = .ok informers') :
    (Covers informers gvr ns ∧ informers' = informers) ∨
      ∃ scope, ¬ Covers informers gvr ns ∧ supportsWatch config gvr = true ∧
        probeScope config gvr ns listProbe = .ok scope ∧
        informers' = startWatching informers gvr scope := by
  unfold ensureWatching at granted
  split at granted
  next => simp at granted
  next supported =>
    split at granted
    next covering =>
      exact .inl ⟨(covering_iff informers gvr ns).mp covering, (Except.ok.inj granted).symm⟩
    next missing =>
      split at granted
      next => simp at granted
      next scope found =>
        refine .inr ⟨scope, fun covers => missing ((covering_iff informers gvr ns).mpr covers), ?_,
          found, (Except.ok.inj granted).symm⟩
        simpa using supported

theorem ensure_neverBoth (once : NeverBoth informers)
    (granted : ensureWatching config informers gvr ns listProbe = .ok informers') :
    NeverBoth informers' := by
  rcases ensure_cases granted with ⟨-, rfl⟩ | ⟨scope, -, -, -, rfl⟩
  · exact once
  · exact start_neverBoth once gvr scope

theorem ensure_served {gvr gvr' : GVR} {ns ns' : String} (before : Served config informers gvr' ns')
    (granted : ensureWatching config informers gvr ns listProbe = .ok informers') :
    Served config informers' gvr' ns' := by
  rcases ensure_cases granted with ⟨-, rfl⟩ | ⟨scope, -, -, -, rfl⟩
  · exact before
  · exact start_served before gvr scope

/-- A granted call is served unless the forced namespace was watched in its place. -/
theorem granted_served_iff {s : State}
    (granted : ensureWatching config s.informers gvr ns listProbe = .ok informers) :
    Served config informers gvr ns ↔ ¬ Diverted config s gvr ns listProbe := by
  rcases ensure_cases granted with ⟨covers, rfl⟩ | ⟨scope, missing, supported, found, rfl⟩
  · have covering := (covering_iff s.informers gvr ns).mpr covers
    refine iff_of_true ((served_iff config s.informers gvr ns).mpr (.inl covers)) ?_
    rintro ⟨-, -, -, -, uncovered, -⟩
    rw [covering] at uncovered
    cases uncovered
  · have here := start_scope s.informers gvr scope
    cases forced : config.namespaceScoped with
    | false =>
      refine iff_of_true ?_ (fun diverted => by simp [diverted.1] at forced)
      rw [served_iff]
      rcases open_scope forced found with rfl | rfl | ⟨everywhere, configured⟩
      · exact .inl (.inl (here.elim id id))
      · exact .inl here
      · exact .inr ⟨everywhere, configured, covers_watched here⟩
    | true =>
      obtain ⟨rfl, allowed⟩ := (forced_scope forced gvr ns scope listProbe).mp found
      rw [served_iff]
      constructor
      · rintro (after | ⟨everywhere, configured, -⟩) diverted
        · rcases start_only after missing with empty | same
          · exact config.named forced empty
          · exact diverted.2.1 same.symm
        · exact configured (diverted.2.2.1 everywhere)
      · intro direct
        by_cases same : ns = config.namespace_
        · exact .inl (same ▸ here)
        · by_cases union : ns = "" ∧ config.namespaceFallback ≠ ""
          · exact .inr ⟨union.1, union.2, covers_watched here⟩
          · refine absurd ⟨forced, same, fun everywhere => ?_, supported, ?_, allowed⟩ direct
            · by_contra configured
              exact union ⟨everywhere, configured⟩
            · rwa [← covering_iff, Bool.not_eq_true] at missing

end Scope

section Run
variable {config : DynamicCacheConfig}

theorem new_honest : Honest config State.new where
  once := fun _ _ wide => by simp [State.new] at wide
  covered := fun _ _ covering => by simp [State.new, hasCoveringInformer] at covering
  ensured := fun _ _ granted => by simp [State.new] at granted

theorem covered_served (gvr : GVR) (ns : String)
    (covering : hasCoveringInformer informers gvr ns = true) :
    Served config informers gvr ns :=
  (served_iff config informers gvr ns).mpr (.inl ((covering_iff informers gvr ns).mp covering))

theorem step_honest (s : State) (call : Call) (t : State) (honest : Honest config s)
    (direct : Undiverted config s call) (next : step config s call = some t) :
    Honest config t := by
  cases call with
  | startWatching gvr scope =>
    obtain rfl := Option.some.inj next
    exact ⟨start_neverBoth honest.once gvr scope, covered_served, fun gvr' ns granted =>
      start_served (honest.ensured gvr' ns granted) gvr scope⟩
  | ensureWatching gvr ns listProbe =>
    simp only [step] at next
    split at next
    next => exact Option.some.inj next ▸ honest
    next informers granted =>
      obtain rfl := Option.some.inj next
      refine ⟨ensure_neverBoth honest.once granted, covered_served, fun gvr' ns' held => ?_⟩
      rcases mem_cons.mp held with own | earlier
      · obtain ⟨rfl, rfl⟩ := Prod.mk.inj own
        exact (granted_served_iff granted).mpr direct
      · exact ensure_served (honest.ensured gvr' ns' earlier) granted

/-- A call that is diverted breaks the promise at once. -/
theorem honest_undiverted (s : State) (call : Call)
    (after : ∀ t, step config s call = some t → Honest config t) : Undiverted config s call := by
  cases call with
  | startWatching gvr scope => trivial
  | ensureWatching gvr ns listProbe =>
    cases result : ensureWatching config s.informers gvr ns listProbe with
    | ok informers =>
      have honest := after ⟨informers, (gvr, ns) :: s.granted⟩ (by simp [step, result])
      exact (granted_served_iff result).mp (honest.ensured gvr ns mem_cons_self)
    | error text =>
      intro diverted
      obtain ⟨forced, -, -, supported, uncovered, allowed⟩ := diverted
      have found := (forced_scope forced gvr ns config.namespace_ listProbe).mpr ⟨rfl, allowed⟩
      simp [ensureWatching, supported, uncovered, found] at result

theorem run_neverBoth {s : State} {calls : List Call}
    (run : Runs.exec (step config) State.new calls = some s) : NeverBoth s.informers := by
  have kept : ∀ (s : State) (call : Call) (t : State), NeverBoth s.informers → True →
      step config s call = some t → NeverBoth t.informers := by
    intro s call t once _ next
    cases call with
    | startWatching gvr scope =>
      obtain rfl := Option.some.inj next
      exact start_neverBoth once gvr scope
    | ensureWatching gvr ns listProbe =>
      simp only [step] at next
      split at next
      next => exact Option.some.inj next ▸ once
      next informers granted =>
        obtain rfl := Option.some.inj next
        exact ensure_neverBoth once granted
  have start : NeverBoth State.new.informers := by
    have honest : Honest config State.new := new_honest
    exact honest.once
  exact Runs.guarded_invariant kept start (Runs.guarded_of_mem (fun _ _ _ => trivial) _) run

/-- What is covered is served whatever the calls are; all that was granted is served, along the
whole run, exactly when no call is diverted. -/
theorem honest_iff_undiverted (config : DynamicCacheConfig) (calls : List Call) :
    (∀ s, Runs.exec (step config) State.new calls = some s → NeverBoth s.informers ∧
      ∀ gvr ns, hasCoveringInformer s.informers gvr ns = true → Served config s.informers gvr ns) ∧
    (Runs.Along (step config) (Honest config) State.new calls ↔
      Runs.Guarded (step config) (Undiverted config) State.new calls) := by
  constructor
  · intro s run
    exact ⟨run_neverBoth run, covered_served⟩
  · exact Runs.along_iff_guarded step_honest (fun _ honest => honest)
      (fun s call _ after => honest_undiverted s call after) new_honest calls

end Run

section Diversion

def widgets : GVR := ⟨"example.com", "v1", "widgets"⟩

theorem forced_named : true = true → "team-a" ≠ "" := by decide

def forcedConfig : DynamicCacheConfig := ⟨none, true, "team-a", "", forced_named⟩

/-- A list of team-b is granted and finds no informer: team-a is what is watched. -/
theorem forced_diverts : (∃ informers, ensureWatching forcedConfig [] widgets "team-b" (fun _ => none) =
        .ok informers ∧ readEntries forcedConfig informers widgets "team-b" = []) ∧
      ¬ Runs.Along (step forcedConfig) (Honest forcedConfig) State.new
          [.ensureWatching widgets "team-b" fun _ => none] := by
  refine ⟨⟨[⟨widgets, "team-a"⟩], rfl, by decide⟩, fun along => ?_⟩
  have after := (along.2 _ rfl).ensured widgets "team-b" List.mem_cons_self
  obtain ⟨key, member, -⟩ := after
  revert member
  exact List.not_mem_nil

end Diversion
end DynamicCache
