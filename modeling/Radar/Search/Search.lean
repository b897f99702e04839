import Radar.Base.Arrange
import Radar.Base.KeyedFold
import Radar.Search.Score

/- internal/search/search.go: the scan of typed and dynamic resources, and what comes of its hits. -/
namespace Search
open Arrange NodeRef List

structure Object where
  namespace_ : String
  name : String
  labels : List (String × String)
  annotations : List (String × String)
  images : List String
  content : List ContentField

structure TypedKind where
  kind : String
  plural : String
  group : String
  deriving DecidableEq

def typedKinds : List TypedKind :=
  [ ⟨"Pod", "pods", ""⟩, ⟨"Service", "services", ""⟩, ⟨"Deployment", "deployments", "apps"⟩,
    ⟨"DaemonSet", "daemonsets", "apps"⟩, ⟨"StatefulSet", "statefulsets", "apps"⟩,
    ⟨"ReplicaSet", "replicasets", "apps"⟩, ⟨"Job", "jobs", "batch"⟩,
    ⟨"CronJob", "cronjobs", "batch"⟩, ⟨"Ingress", "ingresses", "networking.k8s.io"⟩,
    ⟨"ConfigMap", "configmaps", ""⟩, ⟨"Secret", "secrets", ""⟩,
    ⟨"PersistentVolumeClaim", "persistentvolumeclaims", ""⟩,
    ⟨"PersistentVolume", "persistentvolumes", ""⟩,
    ⟨"StorageClass", "storageclasses", "storage.k8s.io"⟩,
    ⟨"HorizontalPodAutoscaler", "hpas", "autoscaling"⟩,
    ⟨"PodDisruptionBudget", "poddisruptionbudgets", "policy"⟩, ⟨"Node", "nodes", ""⟩,
    ⟨"Namespace", "namespaces", ""⟩, ⟨"Event", "events", ""⟩]

def isClusterScopedKind (kind : String) : Bool :=
  kind ∈ ["Node", "Namespace", "PersistentVolume", "StorageClass"]

structure GVR where
  group : String
  version : String
  resource : String
  deriving DecidableEq

structure APIResource where
  group : String
  name : String
  namespaced : Bool
  deriving DecidableEq

structure ResourceDiscovery where
  getResource : String → Option APIResource
  getResourceWithGroup : String → String → Option APIResource

/-- The caches behind a search. A typed lister is keyed by its plural and may be missing (forbidden);
a dynamic list may fail in one namespace and not in another. -/
structure Provider where
  typed : String → Option (List Object)
  watchedDynamic : List GVR
  kindForGVR : GVR → String
  namespacedForGVR : GVR → Option Bool
  dynamic : GVR → List Object
  dynamicFails : GVR → String → Bool
  discovery : Option ResourceDiscovery

/-- A filter may fail on an object. -/
structure Options where
  limit : Int
  namespaces : Option (List String)
  skipKinds : String → Bool
  namespacesByKind : String → Option (List String)
  canReadClusterScoped : Option (String → String → String → Bool)
  filter : Option (String → Object → Option Bool)

structure Hit where
  score : Nat
  kind : String
  group : String
  namespace_ : String
  name : String
  matched : List MatchedField
  deriving DecidableEq

structure Result where
  hits : List Hit
  total : Nat
  searched : Nat
  totalMatched : Nat
  filterErrors : Nat
  deriving DecidableEq

section Listing

/-- A lister asked for the empty namespace lists all of them. -/
def listNs (items : List Object) (ns : String) : List Object :=
  if ns = "" then items else items.filter fun obj => obj.namespace_ == ns

def fetchResourceList (items : List Object) : Option (List String) → List Object
  | none => items
  | some namespaces => namespaces.flatMap (listNs items)

def Provider.listTyped (p : Provider) (plural : String) (namespaces : Option (List String)) : List Object :=
  (p.typed plural).elim [] fun items => fetchResourceList items namespaces

def Provider.listDynamic (p : Provider) (gvr : GVR) (ns : String) : List Object :=
  if p.dynamicFails gvr ns then [] else listNs (p.dynamic gvr) ns

end Listing

section ScopeOfKinds
variable (casing : Casing)

/-- The static catalogue, by lower-case kind, plural or short name. -/
def clusterOnlyKinds : List (List String × String × String) := [ (["nodes", "node", "no"], "", "nodes"),
    (["persistentvolumes", "persistentvolume", "pv"], "", "persistentvolumes"),
    (["namespaces", "namespace", "ns"], "", "namespaces"),
    (["storageclasses", "storageclass", "sc"], "storage.k8s.io", "storageclasses"),
    (["ingressclasses", "ingressclass"], "networking.k8s.io", "ingressclasses"),
    (["clusterroles", "clusterrole"], "rbac.authorization.k8s.io", "clusterroles"),
    (["clusterrolebindings", "clusterrolebinding"], "rbac.authorization.k8s.io", "clusterrolebindings"),
    (["priorityclasses", "priorityclass"], "scheduling.k8s.io", "priorityclasses"),
    (["runtimeclasses", "runtimeclass"], "node.k8s.io", "runtimeclasses"),
    (["mutatingwebhookconfigurations", "mutatingwebhookconfiguration"],
      "admissionregistration.k8s.io", "mutatingwebhookconfigurations"),
    (["validatingwebhookconfigurations", "validatingwebhookconfiguration"],
      "admissionregistration.k8s.io", "validatingwebhookconfigurations"),
    (["customresourcedefinitions", "customresourcedefinition", "crd"], "apiextensions.k8s.io",
      "customresourcedefinitions")]

def clusterOnlyKindGVR (kind : String) : Option (String × String) :=
  (clusterOnlyKinds.find? fun entry => entry.1.contains (casing.toLower kind)).map (·.2)

/-- Group and resource of a cluster-scoped kind, none for every other kind. -/
def classifyKindScope (discovery : Option ResourceDiscovery) (kind group : String) :
    Option (String × String) :=
  match clusterOnlyKindGVR casing kind, discovery with
  | some known, _ => some known
  | none, none => none
  | none, some disc =>
    let found := if group = "" then disc.getResource kind else disc.getResourceWithGroup kind group
    found.bind fun ar => if ar.namespaced then none else some (ar.group, ar.name)

def classifyDynamicScope (p : Provider) (gvr : GVR) (kind : String) : Option (String × String) :=
  match p.namespacedForGVR gvr with
  | some namespaced => if namespaced then none else some (gvr.group, gvr.resource)
  | none => classifyKindScope casing p.discovery kind gvr.group

def Options.allows (opts : Options) (kind group resource : String) : Bool :=
  opts.canReadClusterScoped.all fun allowed => allowed kind group resource

end ScopeOfKinds

section Scan
variable (casing : Casing) (p : Provider) (q : Query) (opts : Options)

def shouldScanTyped (kind : String) : Bool :=
  if q.kindFilter.length > 0 then kindMatches casing kind q.kindFilter
  else casing.toLower kind != "event"

def shouldScanCRD (kind : String) : Bool :=
  if q.kindFilter.length > 0 then kindMatches casing kind q.kindFilter else true

/-- Secrets are not searched by content. -/
def candidate (kind group : String) (obj : Object) : Candidate :=
  ⟨kind, group, obj.namespace_, obj.name, obj.labels, obj.annotations, obj.images,
    if kind = "Secret" then [] else obj.content⟩

def typedNamespaces (tk : TypedKind) : Option (List String) := if isClusterScopedKind tk.kind then none
  else (opts.namespacesByKind tk.kind).or opts.namespaces

def typedObjects (tk : TypedKind) : List Object := if !shouldScanTyped casing q tk.kind then []
  else if opts.skipKinds tk.kind then []
  else if isClusterScopedKind tk.kind && !opts.allows tk.kind tk.group tk.plural then []
  else p.listTyped tk.plural (typedNamespaces opts tk)

def dynamicObjects (gvr : GVR) : List Object := let kind := p.kindForGVR gvr
  if kind = "" || !shouldScanCRD casing q kind then []
  else
    match classifyDynamicScope casing p gvr kind with
    | some (group, resource) =>
      if opts.allows kind group resource then p.listDynamic gvr "" else []
    | none =>
      if (opts.namespaces.getD []).length = 0 then p.listDynamic gvr ""
      else (opts.namespaces.getD []).flatMap (p.listDynamic gvr)

/-- What the filter says of a matching object; `none` where it fails. -/
def filterVerdict (kind : String) (obj : Object) : Option Bool :=
  opts.filter.elim (some true) fun verdict => verdict kind obj

def hitOf (kind group : String) (obj : Object) : Option Hit :=
  (match_ casing q (candidate kind group obj)).bind fun found =>
    if filterVerdict opts kind obj = some true then
      some ⟨found.1, kind, group, obj.namespace_, obj.name, found.2⟩
    else none

/-- Everything the two loops list, with the kind and group it is listed under. -/
def scanned : List (String × String × Object) := (typedKinds.flatMap fun tk =>
    (typedObjects casing p q opts tk).map fun obj => (tk.kind, tk.group, obj)) ++
  p.watchedDynamic.flatMap fun gvr =>
    (dynamicObjects casing p q opts gvr).map fun obj => (p.kindForGVR gvr, gvr.group, obj)

def pendingHits : List Hit :=
  (scanned casing p q opts).filterMap fun entry => hitOf casing q opts entry.1 entry.2.1 entry.2.2

def countFilterErrors : Nat := ((scanned casing p q opts).filter fun entry =>
    (match_ casing q (candidate entry.1 entry.2.1 entry.2.2)).isSome &&
      (filterVerdict opts entry.1 entry.2.2).isNone).length

end Scan

section Ranking

abbrev HitKey := String × String × String × String

def Hit.key (h : Hit) : HitKey := (h.kind, h.group, h.namespace_, h.name)

/-- The slice while it is folded into its own front: how much of the front is filled, and where the
hit of a key lies. -/
structure Slots where
  backing : List Hit
  filled : Nat
  seen : HitKey → Option Nat

def Slots.put (s : Slots) (h : Hit) : Slots := match s.seen h.key with
  | some idx =>
    if s.backing[idx]?.any fun old => decide (old.score < h.score) then
      { s with backing := s.backing.set idx h }
    else s
  | none => ⟨s.backing.set s.filled h, s.filled + 1,
      fun key => if key = h.key then some s.filled else s.seen key⟩

/-- One round of the loop reads the slice as the rounds before have left it. -/
def Slots.round (s : Slots) (i : Nat) : Slots := (s.backing[i]?).elim s s.put

def dedupe (pending : List Hit) : List Hit := if pending.length > 1 then
    let s := (List.range pending.length).foldl Slots.round ⟨pending, 0, fun _ => none⟩
    s.backing.take s.filled
  else pending

def lessHit (a b : Hit) : Bool := if a.score ≠ b.score then decide (b.score < a.score)
  else if a.kind ≠ b.kind then decide (a.kind < b.kind)
  else if a.namespace_ ≠ b.namespace_ then decide (a.namespace_ < b.namespace_)
  else decide (a.name < b.name)

def defaultLimit : Int := 50

def maxLimit : Int := 500

def effectiveLimit (limit : Int) : Nat := (min (if limit ≤ 0 then defaultLimit else limit) maxLimit).toNat

end Ranking

def search (casing : Casing) (p : Provider) (q : Query) (opts : Options) : Result :=
  let pending := sortStable lessHit (dedupe (pendingHits casing p q opts))
  let hits := pending.take (effectiveLimit opts.limit)
  { hits := hits
    total := hits.length
    searched := (scanned casing p q opts).length
    totalMatched := pending.length
    filterErrors := countFilterErrors casing p q opts }

section Dedupe
open KeyedFold
variable {pending : List Hit} {s : Slots} {i : Nat}

/-- The better of two copies of one resource; the first one wins ties. -/
def better (old h : Hit) : Hit := if old.key = h.key ∧ old.score < h.score then h else old

theorem better_key (old h : Hit) : (better old h).key = old.key := by
  unfold better
  split
  next wins => exact wins.1.symm
  next => rfl

def hitFolding : Folding Hit Hit HitKey where
  keyOf := Hit.key
  key := Hit.key
  start := id
  add := better
  key_start := fun _ => rfl
  key_add := better_key

/-- After i rounds the front holds the fold of the first i hits, and what lies behind is untouched. -/
structure Folded (pending : List Hit) (i : Nat) (s : Slots) : Prop where
  length : s.backing.length = pending.length
  filled : s.filled ≤ i
  front : s.backing.take s.filled = hitFolding.gather (pending.take i)
  rest : s.backing.drop i = pending.drop i
  seen : ∀ key idx, s.seen key = some idx ↔
    ∃ h, (hitFolding.gather (pending.take i))[idx]? = some h ∧ h.key = key

theorem front_get (folded : Folded pending i s) {idx : Nat} {h : Hit}
    (found : (hitFolding.gather (pending.take i))[idx]? = some h) :
    idx < s.filled ∧ s.backing[idx]? = some h := by
  rw [← folded.front, getElem?_take] at found
  split at found
  next inside => exact ⟨inside, found⟩
  next => exact absurd found (by simp)

theorem set_front {i idx : Nat} (folded : Folded pending i s)
    (inside : idx < s.filled) (h : Hit) (i' : Nat) (later : i < i') :
    (s.backing.set idx h).take s.filled = (hitFolding.gather (pending.take i)).set idx h ∧
      (s.backing.set idx h).drop i' = pending.drop i' := by
  constructor
  · rw [take_set, folded.front]
  · have behind := congrArg (drop (i' - i)) folded.rest
    rw [drop_drop, drop_drop, Nat.add_sub_cancel' later.le] at behind
    rw [drop_set_of_lt (inside.trans_le (folded.filled.trans later.le)), behind]

theorem front_length (folded : Folded pending i s)
    (within : i < pending.length) : (hitFolding.gather (pending.take i)).length = s.filled := by
  rw [← folded.front, length_take, folded.length]
  exact Nat.min_eq_left (folded.filled.trans within.le)

section Rounds
variable {i : Nat} {s : Slots} {h : Hit} (folded : Folded pending i s)
  (within : i < pending.length) (taken : pending.take (i + 1) = pending.take i ++ [h])
include folded within taken

/-- A round that finds the key of its hit filled already. -/
theorem known_folded {idx : Nat} (held : s.seen h.key = some idx) : Folded pending (i + 1) (s.put h) := by
  obtain ⟨old, found, own⟩ := (folded.seen h.key idx).mp held
  obtain ⟨inside, stands⟩ := front_get folded found
  have distinct := (gather_spec (F := hitFolding) (pending.take i)).1
  have folds : hitFolding.gather (pending.take (i + 1)) =
      (hitFolding.gather (pending.take i)).set idx (better old h) := by
    rw [taken, gather_concat]
    exact insert_at distinct found own
  have size := front_length folded within
  have keys : ∀ key idx', s.seen key = some idx' ↔
      ∃ g, (hitFolding.gather (pending.take (i + 1)))[idx']? = some g ∧ g.key = key := by
    intro key idx'
    rw [folded.seen, folds, getElem?_set]
    by_cases same : idx = idx'
    · subst same
      rw [if_pos rfl, if_pos (size.symm ▸ inside), found]
      simp [better_key]
    · rw [if_neg same]
  unfold Slots.put
  simp only [held, stands, Option.any_some, decide_eq_true_iff]
  by_cases wins : old.score < h.score
  · rw [if_pos wins]
    obtain ⟨front, rest⟩ := set_front folded inside h (i + 1) (Nat.lt_succ_self i)
    rw [better, if_pos ⟨own, wins⟩] at folds
    refine ⟨?_, folded.filled.trans (Nat.le_succ i), front.trans folds.symm, rest, keys⟩
    rw [List.length_set, folded.length]
  · rw [if_neg wins]
    have unchanged : (hitFolding.gather (pending.take i)).set idx old =
        hitFolding.gather (pending.take i) := by
      obtain ⟨bound, rfl⟩ := List.getElem?_eq_some_iff.mp found
      exact set_getElem_self bound
    rw [better, if_neg fun both => wins both.2, unchanged] at folds
    refine ⟨folded.length, folded.filled.trans (Nat.le_succ i), folded.front.trans folds.symm, ?_, keys⟩
    rw [← drop_drop, folded.rest, drop_drop]

/-- A round that fills a new place. -/
theorem fresh_folded (unseen : s.seen h.key = none) : Folded pending (i + 1) (s.put h) := by
  have absent : ∀ g ∈ hitFolding.gather (pending.take i), g.key ≠ h.key := by
    intro g member own
    obtain ⟨idx, found⟩ := getElem?_of_mem member
    rw [(folded.seen h.key idx).mpr ⟨g, found, own⟩] at unseen
    exact absurd unseen (by simp)
  have folds : hitFolding.gather (pending.take (i + 1)) = hitFolding.gather (pending.take i) ++ [h] := by
    rw [taken, gather_concat, insert_absent absent]
    simp [hitFolding, better]
  have size := front_length folded within
  unfold Slots.put
  simp only [unseen]
  refine ⟨?_, Nat.succ_le_succ folded.filled, ?_, ?_, ?_⟩
  · rw [length_set, folded.length]
  · have room : s.filled < s.backing.length := by
      rw [folded.length]
      exact folded.filled.trans_lt within
    rw [folds, ← folded.front, take_add_one, getElem?_set_self room, take_set,
      set_eq_of_length_le (by simp)]
    rfl
  · have behind := congrArg (drop 1) folded.rest
    rw [drop_drop, drop_drop] at behind
    rw [drop_set_of_lt (Nat.lt_succ_of_le folded.filled), behind]
  · intro key idx
    change (if key = h.key then some s.filled else s.seen key) = some idx ↔ _
    rw [folds, getElem?_append, size]
    by_cases own : key = h.key
    · subst own
      rw [if_pos rfl, Option.some.injEq]
      constructor
      · rintro rfl
        exact ⟨h, by simp, rfl⟩
      · rintro ⟨g, found, same⟩
        split at found
        next => exact absurd same (absent g (List.mem_of_getElem? found))
        next outside =>
          obtain ⟨inside, -⟩ := List.getElem?_eq_some_iff.mp found
          simp only [length_singleton] at inside
          omega
    · rw [if_neg own, folded.seen]
      constructor
      · rintro ⟨g, found, same⟩
        obtain ⟨inside, -⟩ := front_get folded found
        exact ⟨g, by rw [if_pos inside, found], same⟩
      · rintro ⟨g, found, same⟩
        split at found
        next => exact ⟨g, found, same⟩
        next =>
          have only := mem_of_getElem? found
          rw [mem_singleton] at only
          exact absurd (only ▸ same) (Ne.symm own)

end Rounds

theorem round_folded (folded : Folded pending i s)
    (within : i < pending.length) : Folded pending (i + 1) (s.round i) := by
  have read : s.backing[i]? = some pending[i] := by
    have heads := congrArg (·[0]?) folded.rest
    simpa [within] using heads
  have taken : pending.take (i + 1) = pending.take i ++ [pending[i]] :=
    (take_append_getElem within).symm
  rw [Slots.round, read, Option.elim_some]
  cases held : s.seen pending[i].key with
  | some idx => exact known_folded folded within taken held
  | none => exact fresh_folded folded within taken held

theorem rounds_folded (pending : List Hit) (within : i ≤ pending.length) :
    Folded pending i ((range i).foldl Slots.round ⟨pending, 0, fun _ => none⟩) := by
  induction i with
  | zero => exact ⟨rfl, Nat.le_refl 0, by simp [Folding.gather], rfl, by simp [Folding.gather]⟩
  | succ i ih =>
    rw [range_succ, foldl_append, foldl_cons, foldl_nil]
    exact round_folded (ih (Nat.le_of_succ_le within)) within

/-- Reusing the slice does no harm. -/
theorem dedupe_eq_gather (pending : List Hit) : dedupe pending = hitFolding.gather pending := by
  unfold dedupe
  split
  next =>
    have folded := (rounds_folded pending (Nat.le_refl _)).front
    rwa [take_length] at folded
  next short =>
    cases pending with
    | nil => rfl
    | cons h rest =>
      cases rest with
      | nil => simp [Folding.gather, Folding.insert, hitFolding, better]
      | cons h' rest => simp at short

end Dedupe
end Search
