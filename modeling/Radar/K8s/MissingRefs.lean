import Mathlib.Data.List.Induction
import Mathlib.Data.List.Nodup

/- internal/k8s/detect_missing_refs.go: detectPodMissingRefs, the rows about a pod's references to what does not exist. -/
namespace MissingRefs
open List

section Model

/-- A reference by name, with its optional flag where one is given. -/
structure Ref where
  name : String
  optional : Option Bool

def Ref.isOptional (r : Ref) : Bool := r.optional.getD false

structure VolumeProjection where
  configMap : Option Ref
  secret : Option Ref

structure Volume where
  /-- The claim's name. -/
  persistentVolumeClaim : Option String
  configMap : Option Ref
  secret : Option Ref
  projected : Option (List VolumeProjection)

structure EnvFromSource where
  configMapRef : Option Ref
  secretRef : Option Ref

structure EnvVarSource where
  configMapKeyRef : Option Ref
  secretKeyRef : Option Ref

structure EnvVar where
  valueFrom : Option EnvVarSource

structure Container where
  envFrom : List EnvFromSource
  env : List EnvVar

structure PodSpec where
  volumes : List Volume
  containers : List Container
  initContainers : List Container
  serviceAccountName : String
  imagePullSecrets : List String

structure Pod where
  namespace_ : String
  name : String
  phase : String
  /-- In nanoseconds, as the time of the scan. -/
  creationTimestamp : Int
  spec : PodSpec

/-- A message as fmt.Sprintf is given it: the format, and the name at its verb. -/
structure Message where
  format : String
  name : String
  deriving DecidableEq

structure Owner where
  group : String
  kind : String
  name : String
  deriving DecidableEq

structure Detection where
  kind : String
  group : String
  namespace_ : String
  name : String
  severity : String
  reason : String
  message : Message
  age : String
  ageSeconds : Int
  duration : String
  durationSeconds : Int
  fingerprint : String
  owner : Owner
  deriving DecidableEq

/-- The objects that a lister knows, each as its namespace and name. -/
abbrev Lister := List (String × String)

/-- The listers of the cache, nothing for one that is not there. -/
structure ResourceCache where
  pods : Option (List Pod)
  configMaps : Option Lister
  secrets : Option Lister
  persistentVolumeClaims : Option Lister
  serviceAccounts : Option Lister

/-- What the scan takes from elsewhere: the time, how an age and a fingerprint are written, and a pod's workload. -/
structure Surroundings where
  now : Int
  formatAge : Int → String
  missingRefFingerprint : String → Message → String
  podOwnerKindName : Pod → Owner

variable (around : Surroundings)

def isTerminalPod (p : Pod) : Bool := p.phase == "Succeeded" || p.phase == "Failed"

def missingRefProblem (p : Pod) (reason : String) (message : Message) : Detection :=
  let age := around.now - p.creationTimestamp
  { kind := "Pod"
    group := ""
    namespace_ := p.namespace_
    name := p.name
    severity := "critical"
    reason := reason
    message := message
    age := around.formatAge age
    ageSeconds := age.tdiv 1000000000
    duration := around.formatAge age
    durationSeconds := age.tdiv 1000000000
    fingerprint := around.missingRefFingerprint reason message
    owner := around.podOwnerKindName p }

structure Scan where
  seen : List String
  out : List Detection

def Scan.emit (scan : Scan) (p : Pod) (reason : String) (message : Message) : Scan :=
  { scan with out := scan.out ++ [missingRefProblem around p reason message] }

/-- One check of a reference, and whether it ends without a continue. -/
def check (p : Pod) (lister : Option Lister) (tag reason format name : String) (optional : Bool) (scan : Scan) : Scan × Bool :=
  if name = "" ∨ optional = true ∨ tag ++ name ∈ scan.seen then (scan, false)
  else
    let marked := { scan with seen := (tag ++ name) :: scan.seen }
    match lister with
    | none => (marked, false)
    | some held =>
      if (p.namespace_, name) ∈ held then (marked, true) else (marked.emit around p reason ⟨format, name⟩, true)

variable (cache : ResourceCache) (p : Pod)

def checkConfigMap (source : String) (r : Ref) (scan : Scan) : Scan × Bool :=
  check around p cache.configMaps "cm:" "Missing ConfigMap"
    (source ++ " references ConfigMap %q which does not exist (ref not marked optional)") r.name r.isOptional scan

def checkSecret (source : String) (r : Ref) (scan : Scan) : Scan × Bool :=
  check around p cache.secrets "sec:" "Missing Secret"
    (source ++ " references Secret %q which does not exist (ref not marked optional)") r.name r.isOptional scan

def checkClaim (claimName : String) (scan : Scan) : Scan × Bool :=
  check around p cache.persistentVolumeClaims "pvc:" "Missing PVC"
    "references PersistentVolumeClaim %q which does not exist (pod will not schedule)" claimName false scan

def scanVolume (scan : Scan) (v : Volume) : Scan :=
  match v.persistentVolumeClaim, v.configMap, v.secret with
  | some claimName, _, _ => (checkClaim around cache p claimName scan).1
  | none, some r, _ => (checkConfigMap around cache p "volume" r scan).1
  | none, none, some r => (checkSecret around cache p "volume" r scan).1
  | none, none, none => scan

/-- An entry of a container's environment, of either kind. -/
structure Entry where
  source : String
  configMap : Option Ref
  secret : Option Ref

def Container.entries (c : Container) : List Entry :=
  c.envFrom.map (fun ef => ⟨"envFrom", ef.configMapRef, ef.secretRef⟩) ++
    c.env.filterMap fun e => e.valueFrom.map fun v => ⟨"env var", v.configMapKeyRef, v.secretKeyRef⟩

/-- A continue of the first check passes the second over. -/
def scanEntry (scan : Scan) (e : Entry) : Scan :=
  let first := (e.configMap.map fun r => checkConfigMap around cache p e.source r scan).getD (scan, true)
  if first.2 then (e.secret.map fun r => (checkSecret around cache p e.source r first.1).1).getD first.1 else first.1

def scanServiceAccount (scan : Scan) : Scan := let sa := p.spec.serviceAccountName
  if sa ≠ "" ∧ sa ≠ "default" then
    match cache.serviceAccounts with
    | none => scan
    | some held =>
      if (p.namespace_, sa) ∈ held then scan
      else scan.emit around p "Missing ServiceAccount"
        ⟨"references ServiceAccount %q which does not exist (default SA is not used when one is specified)", sa⟩
  else scan

def scanPullSecret (scan : Scan) (name : String) : Scan :=
  (check around p cache.secrets "pull:" "Missing imagePullSecret"
    "references Secret %q which does not exist (private-registry pulls will fail with ImagePullBackOff)" name false scan).1

def PodSpec.entries (spec : PodSpec) : List Entry := (spec.containers ++ spec.initContainers).flatMap Container.entries

def podMissingRefs : List Detection :=
  let volumes := p.spec.volumes.foldl (scanVolume around cache p) ⟨[], []⟩
  let environment := p.spec.entries.foldl (scanEntry around cache p) volumes
  let account := scanServiceAccount around cache p environment
  (p.spec.imagePullSecrets.foldl (scanPullSecret around cache p) account).out

def listed (namespace_ : String) : List Pod :=
  if namespace_ ≠ "" then (cache.pods.getD []).filter (fun p => p.namespace_ = namespace_) else cache.pods.getD []

def detectPodMissingRefs (namespace_ : String) : List Detection :=
  (listed cache namespace_).flatMap fun p => if isTerminalPod p then [] else podMissingRefs around cache p

end Model

section Statement

inductive RefKind where
  | claim | configMap | secret
  deriving DecidableEq

def RefKind.tag : RefKind → String
  | .claim => "pvc:"
  | .configMap => "cm:"
  | .secret => "sec:"

def RefKind.reason : RefKind → String
  | .claim => "Missing PVC"
  | .configMap => "Missing ConfigMap"
  | .secret => "Missing Secret"

/-- A cache with all its listers, which has one pod of a name in a namespace. -/
structure Warm where
  pods : List Pod
  held : RefKind → Lister
  serviceAccounts : Lister
  distinct : (pods.map fun p => (p.namespace_, p.name)).Nodup

def Warm.cache (w : Warm) : ResourceCache where
  pods := some w.pods
  configMaps := some (w.held .configMap)
  secrets := some (w.held .secret)
  persistentVolumeClaims := some (w.held .claim)
  serviceAccounts := some w.serviceAccounts

/-- The reference is not marked optional and names n. -/
def Needs (r : Option Ref) (n : String) : Prop := ∃ ref, r = some ref ∧ ref.isOptional = false ∧ ref.name = n

def Volume.Mandatory (v : Volume) : RefKind → String → Prop
  | .claim, n => v.persistentVolumeClaim = some n
  | .configMap, n => Needs v.configMap n ∨ ∃ source ∈ v.projected.getD [], Needs source.configMap n
  | .secret, n => Needs v.secret n ∨ ∃ source ∈ v.projected.getD [], Needs source.secret n

def Entry.Mandatory (e : Entry) : RefKind → String → Prop
  | .claim, _ => False
  | .configMap, n => Needs e.configMap n
  | .secret, n => Needs e.secret n

def PodSpec.Mandatory (spec : PodSpec) (k : RefKind) (n : String) : Prop :=
  (∃ v ∈ spec.volumes, v.Mandatory k n) ∨ ∃ e ∈ spec.entries, e.Mandatory k n

/-- What the scan looks at of a volume: its first source. -/
def Volume.Scanned (v : Volume) : RefKind → String → Prop
  | .claim, n => v.persistentVolumeClaim = some n
  | .configMap, n => v.persistentVolumeClaim = none ∧ Needs v.configMap n
  | .secret, n => v.persistentVolumeClaim = none ∧ v.configMap = none ∧ Needs v.secret n

/-- The ConfigMap of an entry, where it has one, is named, mandatory and new to the scan. -/
def Opens (volumes : List Volume) (before : List Entry) (e : Entry) : Prop :=
  ∀ r, e.configMap = some r → r.isOptional = false ∧ r.name ≠ "" ∧
    ¬ ((∃ v ∈ volumes, v.Scanned .configMap r.name) ∨ ∃ d ∈ before, Needs d.configMap r.name)

def Entry.Scanned (volumes : List Volume) (before : List Entry) (e : Entry) : RefKind → String → Prop
  | .claim, _ => False
  | .configMap, n => Needs e.configMap n
  | .secret, n => Opens volumes before e ∧ Needs e.secret n

def Reached (volumes : List Volume) (entries : List Entry) (k : RefKind) (n : String) : Prop :=
  (∃ v ∈ volumes, v.Scanned k n) ∨
    ∃ before e after, entries = before ++ e :: after ∧ e.Scanned volumes before k n

variable (around : Surroundings) (w : Warm)

/-- A pod that is scanned: listed for the namespace, and not at its end. -/
def Live (namespace_ : String) : Type := { p : Pod // p ∈ listed w.cache namespace_ ∧ isTerminalPod p = false }

def Due (p : Pod) (k : RefKind) (n : String) : Prop := p.spec.Mandatory k n ∧ (p.namespace_, n) ∉ w.held k

/-- The rows of a pod about one name. -/
def rowsFor (p : Pod) (k : RefKind) (n : String) (out : List Detection) : List Detection :=
  out.filter fun d => d.namespace_ = p.namespace_ ∧ d.name = p.name ∧ d.reason = k.reason ∧ d.message.name = n

def Exactly (due : Prop) (rows : List Detection) : Prop := (due → rows.length = 1) ∧ (¬ due → rows = [])

/-- One row for each missing name, and none for any other. -/
def Exact (namespace_ : String) (p : Pod) : Prop :=
  ∀ k n, Exactly (Due w p k n) (rowsFor p k n (detectPodMissingRefs around w.cache namespace_))

/-- Each missing name is referenced where the scan comes by. -/
def Covered (p : Pod) : Prop := ∀ k n, Due w p k n → n ≠ "" ∧ Reached p.spec.volumes p.spec.entries k n

end Statement

section Checks
variable {around : Surroundings} {w : Warm} {p : Pod} {k k' : RefKind}

/-- The state of the scan: what was visited without being optional is seen, and has its row where it is missing. -/
structure Kept (w : Warm) (p : Pod) (visited : RefKind → String → Prop) (scan : Scan) : Prop where
  seen : ∀ k n, k.tag ++ n ∈ scan.seen ↔ n ≠ "" ∧ visited k n
  rows : ∀ k n, Exactly (n ≠ "" ∧ visited k n ∧ (p.namespace_, n) ∉ w.held k) (rowsFor p k n scan.out)
  own : ∀ d ∈ scan.out, d.namespace_ = p.namespace_ ∧ d.name = p.name

theorem kept_congr {visited visited' : RefKind → String → Prop} {scan : Scan} (same : ∀ k n, visited k n ↔ visited' k n)
    (kept : Kept w p visited scan) : Kept w p visited' scan := by
  have equal : visited = visited' := funext fun k => funext fun n => propext (same k n)
  exact equal ▸ kept

theorem kept_start : Kept w p (fun _ _ => False) ⟨[], []⟩ := by
  constructor
  · simp
  · exact fun k n => ⟨fun due => absurd due.2.1 id, fun _ => rfl⟩
  · simp

theorem key_inj {n n' : String} : k.tag ++ n = k'.tag ++ n' ↔ k = k' ∧ n = n' := by
  constructor
  · intro same
    have letters := congrArg String.toList same
    rw [String.toList_append, String.toList_append] at letters
    cases k <;> cases k' <;> simp [RefKind.tag] at letters <;> exact ⟨rfl, String.toList_inj.mp letters⟩
  · rintro ⟨rfl, rfl⟩
    rfl

theorem reason_inj (same : k.reason = k'.reason) : k = k' := by
  cases k <;> cases k' <;> first | rfl | (exact absurd same (by decide))

theorem rowsFor_emit (scan : Scan) (k : RefKind) (n reason : String) (message : Message) :
    rowsFor p k n (scan.emit around p reason message).out = rowsFor p k n scan.out ++
      if reason = k.reason ∧ message.name = n then [missingRefProblem around p reason message] else [] := by
  have single : rowsFor p k n [missingRefProblem around p reason message] =
      if reason = k.reason ∧ message.name = n then [missingRefProblem around p reason message] else [] := by
    simp [rowsFor, missingRefProblem, filter_cons]
  rw [← single]
  exact filter_append _ _

theorem own_emit {scan : Scan} {reason : String} {message : Message}
    (own : ∀ d ∈ scan.out, d.namespace_ = p.namespace_ ∧ d.name = p.name) :
    ∀ d ∈ (scan.emit around p reason message).out, d.namespace_ = p.namespace_ ∧ d.name = p.name := by
  intro d member
  cases mem_append.mp member with
  | inl earlier => exact own d earlier
  | inr here =>
    rw [mem_singleton.mp here]
    exact ⟨rfl, rfl⟩

/-- A reference whose target is held adds no row to the due ones. -/
theorem due_same (visited : RefKind → String → Prop) (optional : Bool) {name n' : String}
    (held : k' = k ∧ n' = name → (p.namespace_, n') ∈ w.held k') :
    (n' ≠ "" ∧ visited k' n' ∧ (p.namespace_, n') ∉ w.held k') ↔ (n' ≠ "" ∧
      (visited k' n' ∨ k' = k ∧ n' = name ∧ optional = false) ∧ (p.namespace_, n') ∉ w.held k') := by
  constructor
  · exact fun ⟨named, before, missing⟩ => ⟨named, .inl before, missing⟩
  · rintro ⟨named, before | ⟨same, same', -⟩, missing⟩
    · exact ⟨named, before, missing⟩
    · exact absurd (held ⟨same, same'⟩) missing

/-- One check: a mandatory name is visited from here on, and the body ends only at a new one. -/
theorem check_kept {visited : RefKind → String → Prop} {scan : Scan} (kept : Kept w p visited scan) (k : RefKind)
    (format name : String) (optional : Bool) (result : Scan × Bool)
    (run : check around p (some (w.held k)) k.tag k.reason format name optional scan = result) :
    Kept w p (fun k' n' => visited k' n' ∨ k' = k ∧ n' = name ∧ optional = false) result.1 ∧
      (result.2 = true ↔ optional = false ∧ name ≠ "" ∧ ¬ visited k name) := by
  subst run
  unfold check
  by_cases passed : name = "" ∨ optional = true ∨ k.tag ++ name ∈ scan.seen
  · rw [if_pos passed]
    rw [kept.seen] at passed
    have settled : ∀ k' n', n' ≠ "" → (visited k' n' ∨ k' = k ∧ n' = name ∧ optional = false ↔ visited k' n') := by
      intro k' n' named
      constructor
      · rintro (before | ⟨rfl, rfl, mandatory⟩)
        · exact before
        · rcases passed with empty | optional' | ⟨-, before⟩
          · exact absurd empty named
          · rw [mandatory] at optional'
            cases optional'
          · exact before
      · exact .inl
    constructor
    · constructor
      · intro k' n'
        rw [kept.seen]
        exact and_congr_right fun named => (settled k' n' named).symm
      · intro k' n'
        have rows := kept.rows k' n'
        have due : (n' ≠ "" ∧ visited k' n' ∧ (p.namespace_, n') ∉ w.held k') ↔ (n' ≠ "" ∧
            (visited k' n' ∨ k' = k ∧ n' = name ∧ optional = false) ∧ (p.namespace_, n') ∉ w.held k') :=
          and_congr_right fun named => and_congr_left fun _ => (settled k' n' named).symm
        rwa [due] at rows
      · exact kept.own
    · constructor
      · intro ends
        cases ends
      · rintro ⟨mandatory, named, new⟩
        rcases passed with empty | optional' | ⟨-, before⟩
        · exact absurd empty named
        · rw [mandatory] at optional'
          cases optional'
        · exact absurd before new
  · rw [if_neg passed]
    rw [kept.seen, not_or, not_or] at passed
    obtain ⟨named, mandatory, new⟩ := passed
    have new : ¬ visited k name := fun before => new ⟨named, before⟩
    have mandatory : optional = false := by simpa using mandatory
    have seen : ∀ k' n', k'.tag ++ n' ∈ (k.tag ++ name) :: scan.seen ↔
        n' ≠ "" ∧ (visited k' n' ∨ k' = k ∧ n' = name ∧ optional = false) := by
      intro k' n'
      rw [mem_cons, key_inj, kept.seen, mandatory]
      constructor
      · rintro (⟨rfl, rfl⟩ | ⟨named', before⟩)
        · exact ⟨named, .inr ⟨rfl, rfl, rfl⟩⟩
        · exact ⟨named', .inl before⟩
      · rintro ⟨named', before | ⟨rfl, rfl, -⟩⟩
        · exact .inr ⟨named', before⟩
        · exact .inl ⟨rfl, rfl⟩
    have ends : (True ↔ optional = false ∧ name ≠ "" ∧ ¬ visited k name) :=
      ⟨fun _ => ⟨mandatory, named, new⟩, fun _ => trivial⟩
    by_cases held : (p.namespace_, name) ∈ w.held k
    · simp only [if_pos held]
      refine ⟨⟨seen, ?_, kept.own⟩, ends⟩
      intro k' n'
      have rows := kept.rows k' n'
      rwa [due_same visited optional (fun here => by rw [here.1, here.2]; exact held)] at rows
    · simp only [if_neg held]
      refine ⟨⟨seen, ?_, own_emit kept.own⟩, ends⟩
      intro k' n'
      have rows := kept.rows k' n'
      have emitted := @rowsFor_emit around p { scan with seen := (k.tag ++ name) :: scan.seen } k' n' k.reason
        ⟨format, name⟩
      rw [emitted]
      by_cases here : k' = k ∧ n' = name
      · obtain ⟨rfl, rfl⟩ := here
        have none : rowsFor p k' n' scan.out = [] := rows.2 fun due => new due.2.1
        rw [if_pos ⟨rfl, rfl⟩]
        constructor
        · intro _
          rw [length_append, none]
          rfl
        · exact fun absent => absurd ⟨named, .inr ⟨rfl, rfl, mandatory⟩, held⟩ absent
      · rw [if_neg fun both => here ⟨(reason_inj both.1).symm, both.2.symm⟩, append_nil]
        rwa [due_same visited optional (fun same => absurd same here)] at rows

end Checks

section Loops
variable {around : Surroundings} {w : Warm} {p : Pod}

theorem needs_some (r : Ref) (n : String) : Needs (some r) n ↔ n = r.name ∧ r.isOptional = false := by
  constructor
  · rintro ⟨ref, same, mandatory, rfl⟩
    cases same
    exact ⟨rfl, mandatory⟩
  · rintro ⟨rfl, mandatory⟩
    exact ⟨r, rfl, mandatory, rfl⟩

theorem needs_none (n : String) : ¬ Needs none n := by
  rintro ⟨ref, same, -⟩
  cases same

theorem configMap_kept {visited : RefKind → String → Prop} {scan : Scan} (kept : Kept w p visited scan) (source : String)
    (r : Ref) : Kept w p (fun k n => visited k n ∨ k = .configMap ∧ Needs (some r) n)
        (checkConfigMap around w.cache p source r scan).1 ∧
      ((checkConfigMap around w.cache p source r scan).2 = true ↔
        r.isOptional = false ∧ r.name ≠ "" ∧ ¬ visited .configMap r.name) := by
  obtain ⟨later, ends⟩ := check_kept kept .configMap _ r.name r.isOptional (checkConfigMap around w.cache p source r scan) rfl
  refine ⟨kept_congr ?_ later, ends⟩
  intro k n
  rw [needs_some]

theorem secret_kept {visited : RefKind → String → Prop} {scan : Scan} (kept : Kept w p visited scan) (source : String) (r : Ref) :
    Kept w p (fun k n => visited k n ∨ k = .secret ∧ Needs (some r) n) (checkSecret around w.cache p source r scan).1 := by
  refine kept_congr ?_ (check_kept kept .secret _ r.name r.isOptional (checkSecret around w.cache p source r scan) rfl).1
  intro k n
  rw [needs_some]

theorem volume_kept {visited : RefKind → String → Prop} {scan : Scan} (kept : Kept w p visited scan) (v : Volume) :
    Kept w p (fun k n => visited k n ∨ v.Scanned k n) (scanVolume around w.cache p scan v) := by
  unfold scanVolume
  split
  · rename_i claimName claimed
    refine kept_congr ?_ (check_kept kept .claim _ claimName false (checkClaim around w.cache p claimName scan) rfl).1
    intro k n
    cases k <;> simp [Volume.Scanned, claimed, eq_comm]
  · rename_i r unclaimed mapped
    refine kept_congr ?_ (configMap_kept kept "volume" r).1
    intro k n
    cases k <;> simp [Volume.Scanned, unclaimed, mapped]
  · rename_i r unclaimed unmapped secret
    refine kept_congr ?_ (secret_kept kept "volume" r)
    intro k n
    cases k <;> simp [Volume.Scanned, unclaimed, unmapped, secret, needs_none]
  · rename_i unclaimed unmapped none
    refine kept_congr ?_ kept
    intro k n
    cases k <;> simp [Volume.Scanned, unclaimed, unmapped, none, needs_none]

theorem volumes_kept (volumes : List Volume) :
    Kept w p (fun k n => ∃ v ∈ volumes, v.Scanned k n) (volumes.foldl (scanVolume around w.cache p) ⟨[], []⟩) := by
  induction volumes using reverseRecOn with
  | nil => exact kept_congr (by simp) kept_start
  | append_singleton volumes v ih =>
    rw [foldl_append]
    refine kept_congr ?_ (volume_kept ih v)
    intro k n
    simp [or_and_right, exists_or]

theorem reached_concat (volumes : List Volume) (entries : List Entry) (e : Entry) (k : RefKind) (n : String) :
    Reached volumes (entries ++ [e]) k n ↔ Reached volumes entries k n ∨ e.Scanned volumes entries k n := by
  unfold Reached
  rw [or_assoc]
  apply or_congr_right
  constructor
  · rintro ⟨before, d, after, split, scanned⟩
    rcases eq_nil_or_concat after with rfl | ⟨rest, last, rfl⟩
    · obtain ⟨rfl, same⟩ := append_inj' split rfl
      cases same
      exact .inr scanned
    · rw [concat_eq_append, ← cons_append, ← append_assoc] at split
      obtain ⟨rfl, -⟩ := append_inj' split rfl
      exact .inl ⟨before, d, rest, rfl, scanned⟩
  · rintro (⟨before, d, after, rfl, scanned⟩ | scanned)
    · exact ⟨before, d, after ++ [e], by simp, scanned⟩
    · exact ⟨entries, e, [], rfl, scanned⟩

theorem reached_configMap (volumes : List Volume) (entries : List Entry) (n : String) : Reached volumes entries .configMap n ↔
    (∃ v ∈ volumes, v.Scanned .configMap n) ∨ ∃ d ∈ entries, Needs d.configMap n := by
  apply or_congr_right
  constructor
  · rintro ⟨before, e, after, rfl, scanned⟩
    exact ⟨e, by simp, scanned⟩
  · rintro ⟨e, member, scanned⟩
    obtain ⟨before, after, rfl⟩ := append_of_mem member
    exact ⟨before, e, after, rfl, scanned⟩

theorem entry_kept {volumes : List Volume} {entries : List Entry} {scan : Scan} (kept : Kept w p (Reached volumes entries) scan)
    (e : Entry) : Kept w p (Reached volumes (entries ++ [e])) (scanEntry around w.cache p scan e) := by
  -- the first check, which is passed where there is no ConfigMap
  have first : Kept w p (fun k n => Reached volumes entries k n ∨ k = .configMap ∧ Needs e.configMap n)
        ((e.configMap.map fun r => checkConfigMap around w.cache p e.source r scan).getD (scan, true)).1 ∧
      (((e.configMap.map fun r => checkConfigMap around w.cache p e.source r scan).getD (scan, true)).2 = true ↔
        Opens volumes entries e) := by
    unfold Opens
    cases held : e.configMap with
    | none => exact ⟨kept_congr (by simp [needs_none]) kept, by simp⟩
    | some r =>
      obtain ⟨later, ends⟩ := @configMap_kept around w p _ _ kept e.source r
      rw [reached_configMap] at ends
      refine ⟨later, ends.trans ?_⟩
      simp
  unfold scanEntry
  generalize (e.configMap.map fun r => checkConfigMap around w.cache p e.source r scan).getD (scan, true) = result at first
  obtain ⟨later, ends⟩ := first
  by_cases opens : result.2 = true
  · simp only [if_pos opens]
    cases held : e.secret with
    | none =>
      refine kept_congr ?_ later
      intro k n
      rw [reached_concat]
      cases k <;> simp [Entry.Scanned, held, needs_none]
    | some r =>
      refine kept_congr ?_ (secret_kept later e.source r)
      intro k n
      rw [reached_concat]
      cases k <;> simp [Entry.Scanned, held, ends.mp opens]
  · simp only [if_neg opens]
    rw [ends] at opens
    refine kept_congr ?_ later
    intro k n
    rw [reached_concat]
    cases k <;> simp [Entry.Scanned, opens]

theorem entries_kept (volumes : List Volume) (entries : List Entry) : Kept w p (Reached volumes entries)
    (entries.foldl (scanEntry around w.cache p) (volumes.foldl (scanVolume around w.cache p) ⟨[], []⟩)) := by
  induction entries using reverseRecOn with
  | nil =>
    refine kept_congr ?_ (volumes_kept volumes)
    intro k n
    simp [Reached]
  | append_singleton entries e ih =>
    rw [foldl_append]
    exact entry_kept ih e

/-- The rows of a pod as far as one name is concerned, and the pod they are about. -/
structure Settled (w : Warm) (p : Pod) (out : List Detection) : Prop where
  rows : ∀ k n, Exactly (n ≠ "" ∧ Reached p.spec.volumes p.spec.entries k n ∧ (p.namespace_, n) ∉ w.held k) (rowsFor p k n out)
  own : ∀ d ∈ out, d.namespace_ = p.namespace_ ∧ d.name = p.name

/-- A row of another reason settles nothing else. -/
theorem settled_emit {scan : Scan} (settled : Settled w p scan.out) {reason : String} (other : ∀ k : RefKind, reason ≠ k.reason)
    (message : Message) : Settled w p (scan.emit around p reason message).out := by
  constructor
  · intro k n
    rw [rowsFor_emit, if_neg fun both => other k both.1, append_nil]
    exact settled.rows k n
  · exact own_emit settled.own

theorem pull_settled (names : List String) {scan : Scan} (settled : Settled w p scan.out) :
    Settled w p (names.foldl (scanPullSecret around w.cache p) scan).out := by
  induction names generalizing scan with
  | nil => exact settled
  | cons name rest ih =>
    apply ih
    unfold scanPullSecret check
    split
    · exact settled
    · simp only [Warm.cache]
      split
      · exact settled
      · exact @settled_emit around w p { scan with seen := _ } settled _ (by intro k; cases k <;> decide) _

theorem account_settled {scan : Scan} (settled : Settled w p scan.out) :
    Settled w p (scanServiceAccount around w.cache p scan).out := by
  unfold scanServiceAccount
  simp only [Warm.cache]
  split
  · split
    · exact settled
    · exact settled_emit settled (by intro k; cases k <;> decide) _
  · exact settled

theorem pod_settled : Settled w p (podMissingRefs around w.cache p) := by
  have kept := @entries_kept around w p p.spec.volumes p.spec.entries
  exact pull_settled _ (account_settled ⟨kept.rows, kept.own⟩)

end Loops

section Conclusion
variable (around : Surroundings) (w : Warm)

def rowsOf (p : Pod) : List Detection := if isTerminalPod p then [] else podMissingRefs around w.cache p

theorem rows_elsewhere {p q : Pod} (other : (q.namespace_, q.name) ≠ (p.namespace_, p.name)) (k : RefKind) (n : String) :
    rowsFor p k n (rowsOf around w q) = [] := by
  have own : ∀ d ∈ rowsOf around w q, d.namespace_ = q.namespace_ ∧ d.name = q.name := by
    unfold rowsOf
    split
    · exact fun d member => by cases member
    · exact pod_settled.own
  rw [rowsFor, filter_eq_nil_iff]
  intro d member same
  obtain ⟨space, name⟩ := own d member
  have same := of_decide_eq_true same
  exact other (by rw [← space, ← name, same.1, same.2.1])

theorem rows_pods {p : Pod} (k : RefKind) (n : String) (pods : List Pod) (distinct : (pods.map fun q => (q.namespace_, q.name)).Nodup)
    (member : p ∈ pods) : rowsFor p k n (pods.flatMap (rowsOf around w)) = rowsFor p k n (rowsOf around w p) := by
  have away : ∀ others : List Pod, (p.namespace_, p.name) ∉ others.map (fun q => (q.namespace_, q.name)) →
      rowsFor p k n (others.flatMap (rowsOf around w)) = [] := by
    intro others absent
    induction others with
    | nil => rfl
    | cons q rest ih =>
      rw [map_cons, mem_cons, not_or] at absent
      rw [flatMap_cons, rowsFor, filter_append]
      exact append_eq_nil_iff.mpr ⟨rows_elsewhere around w (Ne.symm absent.1) k n, ih absent.2⟩
  induction pods with
  | nil => cases member
  | cons q rest ih =>
    rw [map_cons, nodup_cons] at distinct
    have split : rowsFor p k n ((q :: rest).flatMap (rowsOf around w)) =
        rowsFor p k n (rowsOf around w q) ++ rowsFor p k n (rest.flatMap (rowsOf around w)) := filter_append _ _
    rw [split]
    cases mem_cons.mp member with
    | inl here =>
      subst here
      rw [away rest distinct.1, append_nil]
    | inr later =>
      have other : (q.namespace_, q.name) ≠ (p.namespace_, p.name) := by
        intro same
        exact distinct.1 (same ▸ mem_map.mpr ⟨p, later, rfl⟩)
      rw [rows_elsewhere around w other, nil_append, ih distinct.2 later]

theorem listed_distinct (namespace_ : String) : ((listed w.cache namespace_).map fun q => (q.namespace_, q.name)).Nodup := by
  unfold listed
  split
  · exact w.distinct.sublist (List.Sublist.map _ filter_sublist)
  · exact w.distinct

/-- What the scan reaches is referenced. -/
theorem reached_mandatory {spec : PodSpec} {k : RefKind} {n : String} (reached : Reached spec.volumes spec.entries k n) :
    spec.Mandatory k n := by
  rcases reached with ⟨v, member, scanned⟩ | ⟨before, e, after, split, scanned⟩
  · refine .inl ⟨v, member, ?_⟩
    cases k with
    | claim => exact scanned
    | configMap => exact .inl scanned.2
    | secret => exact .inl scanned.2.2
  · refine .inr ⟨e, by simp [split], ?_⟩
    cases k with
    | claim => exact scanned
    | configMap => exact scanned
    | secret => exact scanned.2

/-- Every missing name has its one row, and no other has one, just where the scan reaches each missing name. -/
theorem missing_rows_iff (namespace_ : String) (p : Live w namespace_) : Exact around w namespace_ p.1 ↔ Covered w p.1 := by
  obtain ⟨p, member, live⟩ := p
  apply forall₂_congr
  intro k n
  have rows := rows_pods around w k n _ (listed_distinct w namespace_) member
  have settled : Settled w p (rowsOf around w p) := by
    rw [rowsOf, live]
    exact pod_settled
  have counted := settled.rows k n
  rw [← rows] at counted
  constructor
  · intro exactly due
    by_contra missed
    have empty := counted.2 fun all => missed ⟨all.1, all.2.1⟩
    have single := exactly.1 due
    change rowsFor p k n (detectPodMissingRefs around w.cache namespace_) = [] at empty
    rw [empty] at single
    cases single
  · intro covered
    have same : Due w p k n ↔
        n ≠ "" ∧ Reached p.spec.volumes p.spec.entries k n ∧ (p.namespace_, n) ∉ w.held k :=
      ⟨fun due => ⟨(covered due).1, (covered due).2, due.2⟩, fun all => ⟨reached_mandatory all.2.1, all.2.2⟩⟩
    rw [same]
    exact counted

/-- A pod whose only reference to a missing ConfigMap is a source of a projected volume. -/
def projecting : Pod where
  namespace_ := "shop"
  name := "web-0"
  phase := "Pending"
  creationTimestamp := 0
  spec := ⟨[⟨none, none, none, some [⟨some ⟨"settings", none⟩, none⟩]⟩], [], [], "", []⟩

def projectingCache : Warm := ⟨[projecting], fun _ => [], [], by decide⟩

theorem projected_unreported : ¬ Exact ⟨0, fun _ => "", fun reason _ => reason, fun _ => ⟨"", "", ""⟩⟩ projectingCache "" projecting := by
  intro exactly
  have due : Due projectingCache projecting .configMap "settings" := by
    refine ⟨.inl ⟨_, List.mem_singleton.mpr rfl, .inr ⟨_, List.mem_singleton.mpr rfl, _, rfl, rfl, rfl⟩⟩, ?_⟩
    exact List.not_mem_nil
  have single := (exactly .configMap "settings").1 due
  revert single
  decide

end Conclusion

end MissingRefs
