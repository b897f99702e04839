import Mathlib.Data.List.Dedup
import Mathlib.Data.Prod.Lex
import Mathlib.Data.String.Basic
import Radar.Search.Search

/- Search stays inside the caller's scope, names no resource twice and ranks what it found. -/
namespace Search
open Arrange KeyedFold NodeRef Selection List
variable {h : Hit}

section Distinct

theorem better_fold {k : HitKey} {members : List Hit} (own : ∀ m ∈ members, m.key = k) {held : Hit}
    (key : held.key = k) : members.foldl better held =
      select (fun h old => decide (old.score < h.score)) held members := by
  induction members generalizing held with
  | nil => rfl
  | cons m rest ih =>
    obtain ⟨first, later⟩ := forall_mem_cons.mp own
    have step : better held m = if decide (held.score < m.score) = true then m else held := by
      simp [better, key, first]
    rw [foldl_cons, ih later ((better_key held m).trans key), step]
    rfl

theorem score_ranks :
    Ranks (fun h old : Hit => decide (old.score < h.score)) fun h => OrderDual.toDual h.score := by
  intro h old
  rw [decide_eq_true_iff, OrderDual.toDual_lt_toDual]

/-- What stands for a key is a match of it with the best score there is. -/
theorem dedupe_best {pending : List Hit} (kept : h ∈ dedupe pending) :
    h ∈ pending ∧ ∀ m ∈ pending, m.key = h.key → m.score ≤ h.score := by
  rw [dedupe_eq_gather] at kept
  obtain ⟨first, rest, members, whole⟩ := (gather_spec pending).2.2 h kept
  have own : ∀ m, m ∈ pending ∧ m.key = h.key ↔ m ∈ first :: rest := by
    intro m
    rw [← members, mem_filter, decide_eq_true_iff]
    rfl
  have firstOwn := (own first).mpr mem_cons_self
  have chosen : h = select (fun h old => decide (old.score < h.score)) first (first :: rest) := by
    rw [← better_fold (fun m member => ((own m).mpr member).2) firstOwn.2]
    rw [members] at whole
    exact whole
  constructor
  · have among := select_mem (fun h old : Hit => decide (old.score < h.score)) first (first :: rest)
    rw [← chosen] at among
    rcases mem_cons.mp among with same | member
    · exact same ▸ firstOwn.1
    · exact ((own h).mpr member).1
  · intro m member key
    have le := select_le score_ranks first (first :: rest)
      (mem_cons_of_mem first ((own m).mp ⟨member, key⟩))
    rw [← chosen] at le
    exact OrderDual.toDual_le_toDual.mp le

theorem dedupe_distinct (pending : List Hit) : ((dedupe pending).map Hit.key).Nodup := by
  rw [dedupe_eq_gather]
  exact (gather_spec (F := hitFolding) pending).1

theorem dedupe_count (pending : List Hit) :
    (dedupe pending).length = (pending.map Hit.key).dedup.length := by
  have keys : ((dedupe pending).map Hit.key).Perm (pending.map Hit.key).dedup := by
    refine (perm_ext_iff_of_nodup (dedupe_distinct pending) (nodup_dedup _)).mpr ?_
    intro key
    rw [mem_dedup, dedupe_eq_gather, mem_map (f := Hit.key) (l := pending)]
    exact (gather_spec (F := hitFolding) pending).2.1 key
  rw [← keys.length_eq, length_map]

end Distinct

section Ranked

def hitRank (h : Hit) : ℕᵒᵈ ×ₗ String ×ₗ String ×ₗ String :=
  toLex (OrderDual.toDual h.score, toLex (h.kind, toLex (h.namespace_, h.name)))

theorem hit_ranks : Ranks lessHit hitRank := by
  intro a b
  rw [lessHit, hitRank, hitRank, Prod.Lex.toLex_lt_toLex, Prod.Lex.toLex_lt_toLex, Prod.Lex.toLex_lt_toLex]
  by_cases scores : a.score = b.score
  · by_cases kinds : a.kind = b.kind
    · by_cases namespaces : a.namespace_ = b.namespace_
      · simp [scores, kinds, namespaces]
      · simp [scores, kinds, namespaces]
    · simp [scores, kinds]
  · simp [scores]

theorem rank_score {a b : Hit} (le : hitRank a ≤ hitRank b) : b.score ≤ a.score := by
  rw [hitRank, hitRank, Prod.Lex.toLex_le_toLex] at le
  rcases le with less | ⟨same, -⟩
  · exact (OrderDual.toDual_lt_toDual.mp less).le
  · exact (OrderDual.toDual_inj.mp same).ge

end Ranked

section Origin
variable (casing : Casing) (p : Provider) (q : Query) (opts : Options) {obj : Object}

/-- In a listed namespace; the empty name lists them all. -/
def Named (names : List String) (ns : String) : Prop := "" ∈ names ∨ ns ∈ names

/-- A hit of a typed kind: not a skipped one, and allowed where it is cluster-scoped; elsewhere in
the namespaces listed for the kind, or where there are none for it, in those of the search. -/
def TypedHit (h : Hit) : Prop :=
  ∃ tk ∈ typedKinds, h.kind = tk.kind ∧ h.group = tk.group ∧ opts.skipKinds h.kind = false ∧
    (isClusterScopedKind h.kind = true → opts.allows h.kind h.group tk.plural = true) ∧
    (isClusterScopedKind h.kind = false → ∀ names,
      (opts.namespacesByKind h.kind).or opts.namespaces = some names → Named names h.namespace_)

/-- A hit of a watched dynamic resource: allowed where that is cluster-scoped, elsewhere in the
namespaces of the search. -/
def DynamicHit (h : Hit) : Prop :=
  ∃ gvr ∈ p.watchedDynamic, h.kind = p.kindForGVR gvr ∧ h.group = gvr.group ∧
    (∀ group resource, classifyDynamicScope casing p gvr h.kind = some (group, resource) →
      opts.allows h.kind group resource = true) ∧
    (classifyDynamicScope casing p gvr h.kind = none → ∀ names, opts.namespaces = some names →
      names ≠ [] → Named names h.namespace_)

theorem listed_named {items : List Object} {names : List String}
    (listed : obj ∈ fetchResourceList items (some names)) : Named names obj.namespace_ := by
  obtain ⟨ns, member, inside⟩ := mem_flatMap.mp listed
  unfold listNs at inside
  split at inside
  next all => exact .inl (all ▸ member)
  next =>
    have own := (mem_filter.mp inside).2
    exact .inr (eq_of_beq own ▸ member)

theorem dynamic_named {gvr : GVR} {names : List String}
    (listed : obj ∈ names.flatMap (p.listDynamic gvr)) : Named names obj.namespace_ := by
  obtain ⟨ns, member, inside⟩ := mem_flatMap.mp listed
  unfold Provider.listDynamic at inside
  split at inside
  next => exact absurd inside (by simp)
  next =>
    have listed' : obj ∈ fetchResourceList (p.dynamic gvr) (some names) :=
      mem_flatMap.mpr ⟨ns, member, inside⟩
    exact listed_named listed'

theorem hit_of_fields {kind group : String} (hit : hitOf casing q opts kind group obj = some h) :
    h.kind = kind ∧ h.group = group ∧ h.namespace_ = obj.namespace_ := by
  obtain ⟨found, -, passed⟩ := Option.bind_eq_some_iff.mp hit
  split at passed
  next => exact Option.some.inj passed ▸ ⟨rfl, rfl, rfl⟩
  next => exact absurd passed (by simp)

theorem typed_hit {tk : TypedKind} (member : tk ∈ typedKinds)
    (listed : obj ∈ typedObjects casing p q opts tk)
    (hit : hitOf casing q opts tk.kind tk.group obj = some h) : TypedHit opts h := by
  obtain ⟨kind, group, ns⟩ := hit_of_fields casing q opts hit
  unfold typedObjects at listed
  split at listed
  next => exact absurd listed (by simp)
  next =>
    split at listed
    next => exact absurd listed (by simp)
    next scanned =>
      split at listed
      next => exact absurd listed (by simp)
      next gate =>
        refine ⟨tk, member, kind, group, ?_, ?_, ?_⟩
        · rw [kind]
          exact Bool.eq_false_iff.mpr scanned
        · intro cluster
          rw [kind, group]
          rw [kind] at cluster
          simpa [cluster] using gate
        · intro namespaced names given
          rw [kind] at namespaced given
          rw [typedNamespaces, namespaced, if_neg (by simp), given] at listed
          unfold Provider.listTyped at listed
          cases items : p.typed tk.plural with
          | none => simp [items] at listed
          | some items' =>
            rw [items, Option.elim_some] at listed
            exact ns ▸ listed_named listed

theorem dynamic_hit {gvr : GVR} (member : gvr ∈ p.watchedDynamic)
    (listed : obj ∈ dynamicObjects casing p q opts gvr)
    (hit : hitOf casing q opts (p.kindForGVR gvr) gvr.group obj = some h) :
    DynamicHit casing p opts h := by
  obtain ⟨kind, group, ns⟩ := hit_of_fields casing q opts hit
  refine ⟨gvr, member, kind, group, ?_⟩
  rw [kind, ns]
  unfold dynamicObjects at listed
  simp only at listed
  split at listed
  next => exact absurd listed (by simp)
  next =>
    cases scope : classifyDynamicScope casing p gvr (p.kindForGVR gvr) with
    | some known =>
      simp only [scope] at listed
      split at listed
      next allowed =>
        refine ⟨fun group resource same => ?_, fun none_ => by simp at none_⟩
        obtain rfl := Option.some.inj same
        exact allowed
      next => exact absurd listed (by simp)
    | none =>
      simp only [scope] at listed
      refine ⟨fun _ _ same => by simp at same, fun _ names given nonempty => ?_⟩
      rw [given, Option.getD_some, if_neg (by simpa using nonempty)] at listed
      exact dynamic_named p listed

theorem pending_origin (pending : h ∈ pendingHits casing p q opts) :
    TypedHit opts h ∨ DynamicHit casing p opts h := by
  obtain ⟨entry, scanned, hit⟩ := mem_filterMap.mp pending
  rcases mem_append.mp scanned with typed | dynamic
  · obtain ⟨tk, member, listed⟩ := mem_flatMap.mp typed
    obtain ⟨obj, inside, rfl⟩ := mem_map.mp listed
    exact .inl (typed_hit casing p q opts member inside hit)
  · obtain ⟨gvr, member, listed⟩ := mem_flatMap.mp dynamic
    obtain ⟨obj, inside, rfl⟩ := mem_map.mp listed
    exact .inr (dynamic_hit casing p q opts member inside hit)

/-- The hits lie in scope, name no resource twice, carry the best score among their duplicates and
are ranked; the matches are counted before the limit. -/
structure InScope (result : Result) : Prop where
  origin : ∀ h ∈ result.hits, TypedHit opts h ∨ DynamicHit casing p opts h
  distinct : (result.hits.map Hit.key).Nodup
  best : ∀ h ∈ result.hits, h ∈ pendingHits casing p q opts ∧
    ∀ m ∈ pendingHits casing p q opts, m.key = h.key → m.score ≤ h.score
  ranked : result.hits.Pairwise fun a b => b.score ≤ a.score
  counted : result.totalMatched = ((pendingHits casing p q opts).map Hit.key).dedup.length
  limited : result.total = result.hits.length ∧
    result.hits.length = min (effectiveLimit opts.limit) result.totalMatched

theorem search_in_scope : InScope casing p q opts (search casing p q opts) := by
  have perm := sort_perm lessHit (dedupe (pendingHits casing p q opts))
  have part : (search casing p q opts).hits.Sublist
      (sortStable lessHit (dedupe (pendingHits casing p q opts))) := List.take_sublist _ _
  have kept : ∀ h ∈ (search casing p q opts).hits, h ∈ dedupe (pendingHits casing p q opts) :=
    fun h member => perm.mem_iff.mp (part.subset member)
  exact {
    origin := fun h member => pending_origin casing p q opts (dedupe_best (kept h member)).1
    distinct := ((perm.map Hit.key).nodup_iff.mpr (dedupe_distinct _)).sublist (part.map Hit.key)
    best := fun h member => dedupe_best (kept h member)
    ranked := ((sort_ordered hit_ranks _).sublist part).imp rank_score
    counted := perm.length_eq.trans (dedupe_count _)
    limited := ⟨rfl, List.length_take⟩ }

end Origin

section WatchedSecrets

def plainCasing : Casing := ⟨fun s => String.ofList (s.toList.map Char.toLower), fun a b => a == b⟩

def secretsGVR : GVR := ⟨"", "v1", "secrets"⟩

/-- Secrets reach the search as a watched dynamic resource only. -/
def watchedSecrets : Provider where
  typed := fun _ => none
  watchedDynamic := [secretsGVR]
  kindForGVR := fun _ => "Secret"
  namespacedForGVR := fun _ => some true
  dynamic := fun _ => [⟨"team-b", "db-cred", [], [], [], []⟩]
  dynamicFails := fun _ _ => false
  discovery := none

def credentials : Query := ⟨["db-cred"], [], [], [], []⟩

/-- The caller may list secrets of team-a only, or none. -/
def teamOptions (skipSecrets : Bool) : Options where
  limit := 0
  namespaces := some ["team-a", "team-b"]
  skipKinds := fun kind => skipSecrets && kind == "Secret"
  namespacesByKind := fun kind => if kind = "Secret" then some ["team-a"] else none
  canReadClusterScoped := none
  filter := none

/-- The secret of team-b is found outside the kind's own namespaces, and even where the kind is to be
skipped. -/
theorem watched_secret_found :
    ((search plainCasing watchedSecrets credentials (teamOptions false)).hits.map Hit.key =
        [("Secret", "", "team-b", "db-cred")] ∧
      (teamOptions false).namespacesByKind "Secret" = some ["team-a"]) ∧
    (search plainCasing watchedSecrets credentials (teamOptions true)).hits.map Hit.key =
        [("Secret", "", "team-b", "db-cred")] ∧
      (teamOptions true).skipKinds "Secret" = true := by
  decide +kernel

end WatchedSecrets
end Search
