import Mathlib.Algebra.Order.BigOperators.Group.List
import Mathlib.Algebra.Order.Ring.Nat
import Radar.K8s.DynamicCache

/- pkg/k8score/dynamic_cache.go: the two counts and the listing over namespaces, each with a choice
   of informers of its own. -/
namespace DynamicCounts
open DynamicCache List
variable {namespaces : List String}

/-- An object of a store, cluster-scoped ones without a namespace. -/
structure Unstructured where
  namespace_ : String
  name : String
  deriving DecidableEq

/-- The informers with their stores. One that watches a single namespace holds nothing else. -/
structure Informers where
  keys : List InformerKey
  store : InformerKey → List Unstructured
  hasSynced : InformerKey → Bool
  distinct : keys.Nodup
  confined : ∀ key ∈ keys, key.ns ≠ "" → ∀ o ∈ store key, o.namespace_ = key.ns

/-- GroupVersionResource.String. -/
def gvrString (gvr : GVR) : String := gvr.group ++ "/" ++ gvr.version ++ ", Resource=" ++ gvr.resource

def notSynced (gvr : GVR) : String := "informer not found or not synced for " ++ gvrString gvr

/-- The namespace index, which every informer has. -/
def byIndex (store : List Unstructured) (ns : String) : List Unstructured :=
  store.filter fun o => decide (o.namespace_ = ns)

def countByNamespaces (store : List Unstructured) (namespaces : List String) : Nat :=
  (namespaces.map fun ns => (byIndex store ns).length).sum

section Cache
variable (config : DynamicCacheConfig) (s : Informers)

def indexerItems (entries : List InformerKey) (ns : String) : List Unstructured :=
  entries.flatMap fun key => if ns ≠ "" then byIndex (s.store key) ns else s.store key

/-- List, which for these informers has nothing to start. -/
def list (gvr : GVR) (ns : String) : Except String (List Unstructured) :=
  match readEntries config s.keys gvr ns with
  | [] => .error ("informer not found for " ++ gvrString gvr)
  | entries => .ok (indexerItems s entries ns)

def listEach (gvr : GVR) : List String → Except String (List Unstructured)
  | [] => .ok []
  | ns :: rest => do
    let items ← list config s gvr ns
    let more ← listEach gvr rest
    .ok (items ++ more)

def listNamespaces (gvr : GVR) (namespaces : List String) : Except String (List Unstructured) :=
  if namespaces = [] ∨ gvrIsNamespaced config gvr = false then list config s gvr ""
  else listEach config s gvr namespaces

/-- The sum over all informers of a type, refused when one has not synced. -/
def countAll (gvr : GVR) : List InformerKey → Except String Nat
  | [] => .ok 0
  | key :: rest =>
    if s.hasSynced key = false then .error (notSynced gvr)
    else do
      let more ← countAll gvr rest
      .ok ((s.store key).length + more)

def countEach (gvr : GVR) : List String → Except String Nat
  | [] => .ok 0
  | ns :: rest =>
    if ⟨gvr, ns⟩ ∉ s.keys ∨ s.hasSynced ⟨gvr, ns⟩ = false then
      .error (notSynced gvr ++ " in namespace " ++ ns)
    else do
      let more ← countEach gvr rest
      .ok (countByNamespaces (s.store ⟨gvr, ns⟩) [ns] + more)

def count (gvr : GVR) (namespaces : List String) : Except String Nat := if ⟨gvr, ""⟩ ∈ s.keys then
    if s.hasSynced ⟨gvr, ""⟩ = false then .error (notSynced gvr)
    else if namespaces = [] then .ok (s.store ⟨gvr, ""⟩).length
    else .ok (countByNamespaces (s.store ⟨gvr, ""⟩) namespaces)
  else if namespaces = [] then
    if config.namespaceFallback = "" then .error (notSynced gvr)
    else
      match s.keys.filter fun key => decide (key.gvr = gvr) with
      | [] => .error (notSynced gvr)
      | entries => countAll s gvr entries
  else countEach s gvr namespaces

structure WatchedSet where
  clusterWide : Option InformerKey
  byNamespace : List InformerKey

/-- The entry of a type in byGVR, once all informers have been gone through. -/
def watchedSet (gvr : GVR) : Option WatchedSet :=
  match s.keys.filter fun key => s.hasSynced key && decide (key.gvr = gvr) with
  | [] => none
  | entries => some
    { clusterWide := entries.find? fun key => key.ns == ""
      byNamespace := entries.filter fun key => key.ns != "" }

def countWatchedEach (set : WatchedSet) : List String → Option Nat
  | [] => some 0
  | ns :: rest => do
    let key ← set.byNamespace.find? fun key => key.ns == ns
    let more ← countWatchedEach set rest
    some (countByNamespaces (s.store key) [ns] + more)

/-- The entry of a type in the map that CountWatched returns. -/
def countWatched (namespaces : List String) (gvr : GVR) : Option Nat := (watchedSet s gvr).bind fun set =>
    if namespaces = [] then
      match set.clusterWide with
      | some key => some (s.store key).length
      | none =>
        if config.namespaceFallback = "" then none
        else some (set.byNamespace.map fun key => (s.store key).length).sum
    else
      match set.clusterWide with
      | some key => some (countByNamespaces (s.store key) namespaces)
      | none => countWatchedEach s set namespaces

end Cache

section Sums

theorem either_length {ns : String} {rest : List String} (fresh : ns ∉ rest)
    (store : List Unstructured) :
    (byIndex store ns).length + (store.filter fun o => decide (o.namespace_ ∈ rest)).length =
      (store.filter fun o => decide (o.namespace_ ∈ ns :: rest)).length := by
  rw [byIndex]
  induction store with
  | nil => rfl
  | cons o more ih =>
    by_cases here : o.namespace_ = ns
    · simp [here, fresh] at ih ⊢
      omega
    · by_cases later : o.namespace_ ∈ rest
      · simp [here, later] at ih ⊢
        omega
      · simp [here, later] at ih ⊢
        omega

/-- Counting namespace by namespace counts what is in any of them. -/
theorem count_by_namespaces (store : List Unstructured)
    (distinct : namespaces.Nodup) : countByNamespaces store namespaces =
      (store.filter fun o => decide (o.namespace_ ∈ namespaces)).length := by
  induction namespaces with
  | nil => simp [countByNamespaces]
  | cons ns rest ih =>
    obtain ⟨fresh, distinct'⟩ := nodup_cons.mp distinct
    have tail := ih distinct'
    rw [countByNamespaces] at tail
    rw [countByNamespaces, map_cons, sum_cons, tail, either_length fresh]

theorem sum_eq_iff {α : Type} {f g : α → Nat} {xs : List α} (below : ∀ x ∈ xs, g x ≤ f x) :
    (xs.map g).sum = (xs.map f).sum ↔ ∀ x ∈ xs, g x = f x := by
  induction xs with
  | nil => simp
  | cons x rest ih =>
    obtain ⟨first, later⟩ := forall_mem_cons.mp below
    have total := sum_le_sum later
    simp only [map_cons, sum_cons, forall_mem_cons, ← ih later]
    omega

end Sums

section Agreement
variable (config : DynamicCacheConfig) (s : Informers) (gvr : GVR)

def AllSynced : Prop := ∀ key ∈ s.keys, s.hasSynced key = true

/-- There are informers for every one of the namespaces. -/
def Reaches (namespaces : List String) : Prop := ⟨gvr, ""⟩ ∈ s.keys ∨ ∀ ns ∈ namespaces, ⟨gvr, ns⟩ ∈ s.keys

/-- A count is the length of the listing, and CountWatched has that count and no other. -/
structure Agree (namespaces : List String) : Prop where
  listed : ∀ n, count config s gvr namespaces = .ok n →
    ∃ items, listNamespaces config s gvr namespaces = .ok items ∧ items.length = n
  watched : countWatched config s namespaces gvr = (count config s gvr namespaces).toOption

/-- A namespaced type is not asked for in the empty namespace while one informer watches the
   cluster; a cluster-scoped type is read in one piece, and all that is read is in the namespaces. -/
def Aligned (namespaces : List String) : Prop := namespaces = [] ∨ if gvrIsNamespaced config gvr then
      "" ∈ namespaces → ⟨gvr, ""⟩ ∈ s.keys → ∀ o ∈ s.store ⟨gvr, ""⟩, o.namespace_ = ""
    else
      Reaches s gvr namespaces → readEntries config s.keys gvr "" ≠ [] ∧
        ∀ key ∈ readEntries config s.keys gvr "", ∀ o ∈ s.store key, o.namespace_ ∈ namespaces

def typeKeys : List InformerKey := s.keys.filter fun key => decide (key.gvr = gvr)

variable {config s gvr}

theorem mem_type_keys {key : InformerKey} : key ∈ typeKeys s gvr ↔ key ∈ s.keys ∧ key.gvr = gvr := by
  simp [typeKeys]

theorem find_key (ns : String) : (typeKeys s gvr).find? (fun key => key.ns == ns) =
    if ⟨gvr, ns⟩ ∈ s.keys then some ⟨gvr, ns⟩ else none := by
  cases found : (typeKeys s gvr).find? (fun key => key.ns == ns) with
  | none =>
    have absent : ⟨gvr, ns⟩ ∉ s.keys := by
      intro member
      have none := find?_eq_none.mp found ⟨gvr, ns⟩ (mem_type_keys.mpr ⟨member, rfl⟩)
      simp at none
    rw [if_neg absent]
  | some key =>
    obtain ⟨member, own⟩ := mem_type_keys.mp (mem_of_find?_eq_some found)
    have named : key.ns = ns := by simpa using find?_some found
    have same : key = ⟨gvr, ns⟩ := by
      cases key
      simp_all
    rw [same] at member
    rw [if_pos member, same]

theorem watched_set (synced : AllSynced s) : watchedSet s gvr = if typeKeys s gvr = [] then none
    else some ⟨if ⟨gvr, ""⟩ ∈ s.keys then some ⟨gvr, ""⟩ else none,
      (typeKeys s gvr).filter fun key => key.ns != ""⟩ := by
  have all : (s.keys.filter fun key => s.hasSynced key && decide (key.gvr = gvr)) = typeKeys s gvr := by
    apply filter_congr
    intro key member
    rw [synced key member, Bool.true_and]
  have whole := @find_key s gvr ""
  rw [watchedSet, all]
  cases keys : typeKeys s gvr with
  | nil => rfl
  | cons key rest =>
    rw [keys] at whole
    simp only [whole, reduceCtorEq, if_false]

theorem count_each (synced : AllSynced s) (namespaces : List String) :
    (countEach s gvr namespaces).toOption = if ∀ ns ∈ namespaces, ⟨gvr, ns⟩ ∈ s.keys then
        some (namespaces.map fun ns => (byIndex (s.store ⟨gvr, ns⟩) ns).length).sum
      else none := by
  induction namespaces with
  | nil => simp [countEach, Except.toOption]
  | cons ns rest ih =>
    rw [countEach]
    by_cases here : ⟨gvr, ns⟩ ∈ s.keys
    · have ready := synced _ here
      rw [if_neg (by simp [here, ready])]
      cases tail : countEach s gvr rest with
      | error err =>
        rw [tail] at ih
        have missing : ¬ ∀ ns ∈ rest, ⟨gvr, ns⟩ ∈ s.keys := by
          intro all
          rw [if_pos all] at ih
          cases ih
        rw [if_neg fun all => missing fun ns member => all ns (mem_cons_of_mem _ member)]
        rfl
      | ok more =>
        rw [tail] at ih
        by_cases all : ∀ ns ∈ rest, ⟨gvr, ns⟩ ∈ s.keys
        · rw [if_pos all] at ih
          have both : ∀ name ∈ ns :: rest, ⟨gvr, name⟩ ∈ s.keys := by simpa [here] using all
          rw [if_pos both]
          have same : more = _ := Option.some.inj ih
          rw [same, map_cons, sum_cons]
          simp [Bind.bind, Except.bind, Except.toOption, countByNamespaces]
        · rw [if_neg all] at ih
          cases ih
    · rw [if_pos (Or.inl here), if_neg fun all => here (all ns mem_cons_self)]
      rfl

theorem named_keys (apart : ⟨gvr, ""⟩ ∉ s.keys) :
    ((typeKeys s gvr).filter fun key => key.ns != "") = typeKeys s gvr := by
  rw [filter_eq_self]
  intro key member
  obtain ⟨there, own⟩ := mem_type_keys.mp member
  apply bne_iff_ne.mpr
  intro whole
  cases key
  simp_all

theorem watched_each (apart : ⟨gvr, ""⟩ ∉ s.keys) (clusterWide : Option InformerKey)
    (namespaces : List String) :
    countWatchedEach s ⟨clusterWide, (typeKeys s gvr).filter fun key => key.ns != ""⟩ namespaces =
      if ∀ ns ∈ namespaces, ⟨gvr, ns⟩ ∈ s.keys then
        some (namespaces.map fun ns => (byIndex (s.store ⟨gvr, ns⟩) ns).length).sum
      else none := by
  rw [named_keys apart]
  induction namespaces with
  | nil => simp [countWatchedEach]
  | cons ns rest ih =>
    rw [countWatchedEach, ih]
    simp only [find_key]
    by_cases here : ⟨gvr, ns⟩ ∈ s.keys
    · by_cases later : ∀ ns ∈ rest, ⟨gvr, ns⟩ ∈ s.keys
      · have both : ∀ name ∈ ns :: rest, ⟨gvr, name⟩ ∈ s.keys := by simpa [here] using later
        rw [if_pos here, if_pos later, if_pos both]
        simp [countByNamespaces]
      · have missing : ¬ ∀ name ∈ ns :: rest, ⟨gvr, name⟩ ∈ s.keys := by simpa [here] using later
        rw [if_pos here, if_neg later, if_neg missing]
        rfl
    · have missing : ¬ ∀ name ∈ ns :: rest, ⟨gvr, name⟩ ∈ s.keys := by simp [here]
      rw [if_neg here, if_neg missing]
      rfl

theorem count_all (synced : AllSynced s) {entries : List InformerKey} (known : entries ⊆ s.keys) :
    countAll s gvr entries = .ok (entries.map fun key => (s.store key).length).sum := by
  induction entries with
  | nil => rfl
  | cons key rest ih =>
    obtain ⟨here, later⟩ := cons_subset.mp known
    rw [countAll, if_neg (by simp [synced key here]), ih later]
    rfl

/-- What count_each and watched_each say, for a type without a cluster-wide informer. -/
theorem watched_count (synced : AllSynced s) (namespaces : List String) :
    countWatched config s namespaces gvr = (count config s gvr namespaces).toOption := by
  rw [countWatched, watched_set synced, count]
  by_cases whole : ⟨gvr, ""⟩ ∈ s.keys
  · have some_ : typeKeys s gvr ≠ [] := ne_nil_of_mem (mem_type_keys.mpr ⟨whole, rfl⟩)
    have ready := synced _ whole
    by_cases all : namespaces = []
    · simp [some_, whole, ready, all, Except.toOption]
    · simp [some_, whole, ready, all, Except.toOption]
  · rw [if_neg whole, if_neg whole]
    by_cases all : namespaces = []
    · rw [if_pos all]
      by_cases strict : config.namespaceFallback = ""
      · cases keys : typeKeys s gvr <;> simp [strict, all, Except.toOption]
      · rw [if_neg strict]
        have named := named_keys whole
        have entries : (s.keys.filter fun key => decide (key.gvr = gvr)) = typeKeys s gvr := rfl
        rw [named, entries]
        cases keys : typeKeys s gvr with
        | nil => rfl
        | cons key rest =>
          have known : key :: rest ⊆ s.keys := keys ▸ filter_subset_self _
          simp [count_all synced known, all, strict, Except.toOption]
    · rw [if_neg all, count_each synced]
      by_cases none_ : typeKeys s gvr = []
      · obtain ⟨ns, rest, rfl⟩ := exists_cons_of_ne_nil all
        have missing : ⟨gvr, ns⟩ ∉ s.keys := fun there =>
          ne_nil_of_mem (mem_type_keys.mpr ⟨there, rfl⟩) none_
        rw [if_pos none_, if_neg fun each => missing (each ns mem_cons_self)]
        rfl
      · rw [if_neg none_]
        simp only [Option.bind_some, if_neg all]
        exact watched_each whole none namespaces

theorem flatMap_single {α β : Type} {f : α → List β} {xs : List α} {x : α} (distinct : xs.Nodup)
    (member : x ∈ xs) (others : ∀ y ∈ xs, y ≠ x → f y = []) : xs.flatMap f = f x := by
  induction xs with
  | nil => cases member
  | cons y rest ih =>
    obtain ⟨fresh, distinct'⟩ := nodup_cons.mp distinct
    obtain ⟨first, later⟩ := forall_mem_cons.mp others
    rw [flatMap_cons]
    rcases mem_cons.mp member with rfl | behind
    · have empty : rest.flatMap f = [] := by
        rw [flatMap_eq_nil_iff]
        intro z inside
        exact later z inside fun same => fresh (same ▸ inside)
      rw [empty, append_nil]
    · have differ : y ≠ x := fun same => fresh (same ▸ behind)
      rw [first differ, nil_append, ih distinct' behind later]

/-- In the union of a type's informers a namespace has what its own informer holds. -/
theorem index_union (apart : ⟨gvr, ""⟩ ∉ s.keys) {ns : String} (there : ⟨gvr, ns⟩ ∈ s.keys) :
    byIndex ((typeKeys s gvr).flatMap s.store) ns = byIndex (s.store ⟨gvr, ns⟩) ns := by
  rw [byIndex, filter_flatMap]
  refine flatMap_single (s.distinct.filter _) (mem_type_keys.mpr ⟨there, rfl⟩) ?_
  intro key member differ
  obtain ⟨known, own⟩ := mem_type_keys.mp member
  rw [filter_eq_nil_iff]
  intro o held
  have named : key.ns ≠ "" := by
    intro whole
    apply apart
    rw [← own, ← whole]
    exact known
  rw [s.confined key known named o held, decide_eq_true_eq]
  intro same
  apply differ
  rw [← own, ← same]

theorem list_each (served : ∀ ns ∈ namespaces, readEntries config s.keys gvr ns ≠ []) :
    listEach config s gvr namespaces =
      .ok (namespaces.flatMap fun ns => indexerItems s (readEntries config s.keys gvr ns) ns) := by
  induction namespaces with
  | nil => rfl
  | cons ns rest ih =>
    obtain ⟨here, later⟩ := forall_mem_cons.mp served
    have items : list config s gvr ns = .ok (indexerItems s (readEntries config s.keys gvr ns) ns) := by
      rw [list]
      cases entries : readEntries config s.keys gvr ns with
      | nil => exact absurd entries here
      | cons key more => rfl
    rw [listEach, items, ih later]
    rfl

theorem length_filter_eq {p : Unstructured → Bool} (xs : List Unstructured) :
    (xs.filter p).length = xs.length ↔ ∀ o ∈ xs, p o = true :=
  length_filter_eq_length_iff

/-- One cluster-wide informer: the namespaces are looked up in its index, and the empty one, for a
   listing, is all of it. -/
theorem whole_listed (distinct : namespaces.Nodup) (whole : ⟨gvr, ""⟩ ∈ s.keys) (some_ : namespaces ≠ []) :
    (∃ items, listNamespaces config s gvr namespaces = .ok items ∧
      items.length = countByNamespaces (s.store ⟨gvr, ""⟩) namespaces) ↔
      Aligned config s gvr namespaces := by
  have entries : ∀ ns, readEntries config s.keys gvr ns = [⟨gvr, ""⟩] := fun ns => by
    rw [readEntries, if_pos whole]
  rw [Aligned, listNamespaces]
  simp only [some_, false_or]
  cases kind : gvrIsNamespaced config gvr with
  | true =>
    have served : ∀ ns ∈ namespaces, readEntries config s.keys gvr ns ≠ [] := by simp [entries]
    simp only [Bool.true_eq_false, if_false, if_true, list_each served, Except.ok.injEq,
      exists_eq_left', length_flatMap, entries, indexerItems, flatMap_cons,
      flatMap_nil, append_nil]
    rw [countByNamespaces, eq_comm, sum_eq_iff]
    · constructor
      · intro each asked _ o held
        have all := each "" asked
        simp only [ne_eq, not_true_eq_false, if_false, byIndex] at all
        exact of_decide_eq_true ((length_filter_eq _).mp all o held)
      · intro all ns asked
        by_cases empty : ns = ""
        · subst empty
          simp only [ne_eq, not_true_eq_false, if_false, byIndex]
          exact (length_filter_eq _).mpr fun o held => decide_eq_true (all asked whole o held)
        · rw [if_pos empty]
    · intro ns _
      by_cases empty : ns = ""
      · rw [if_neg (not_not.mpr empty)]
        exact length_filter_le _ _
      · exact Nat.le_of_eq (congrArg length (if_pos empty).symm)
  | false =>
    have listed : list config s gvr "" = .ok (s.store ⟨gvr, ""⟩) := by
      simp [list, entries, indexerItems]
    simp only [if_true, listed, Except.ok.injEq, exists_eq_left', Bool.false_eq_true, if_false, entries]
    rw [count_by_namespaces _ distinct, eq_comm, length_filter_eq]
    have reached : Reaches s gvr namespaces := Or.inl whole
    simp [reached]

/-- Without a cluster-wide informer a namespace is read from its own. -/
theorem part_items (apart : ⟨gvr, ""⟩ ∉ s.keys) {ns : String} (there : ⟨gvr, ns⟩ ∈ s.keys) :
    readEntries config s.keys gvr ns = [⟨gvr, ns⟩] ∧
      indexerItems s [⟨gvr, ns⟩] ns = byIndex (s.store ⟨gvr, ns⟩) ns := by
  have named : ns ≠ "" := fun empty => apart (empty ▸ there)
  constructor
  · rw [readEntries, if_neg apart, if_pos named, if_pos there]
  · simp [indexerItems, named]

/-- A read of all namespaces goes over all the type's informers, if it goes over any. -/
theorem union_entries (apart : ⟨gvr, ""⟩ ∉ s.keys) (some_ : readEntries config s.keys gvr "" ≠ []) :
    readEntries config s.keys gvr "" = typeKeys s gvr := by
  by_cases strict : config.namespaceFallback = ""
  · simp [readEntries, apart, strict] at some_
  · simp [readEntries, apart, strict, typeKeys]

/-- What the informers of single namespaces hold of these is what their union holds. -/
theorem union_counted (distinct : namespaces.Nodup)
    (apart : ⟨gvr, ""⟩ ∉ s.keys) (there : ∀ ns ∈ namespaces, ⟨gvr, ns⟩ ∈ s.keys) :
    (namespaces.map fun ns => (byIndex (s.store ⟨gvr, ns⟩) ns).length).sum =
      (((typeKeys s gvr).flatMap s.store).filter fun o => decide (o.namespace_ ∈ namespaces)).length := by
  rw [← count_by_namespaces _ distinct, countByNamespaces]
  congr 1
  apply map_congr_left
  intro ns asked
  rw [index_union apart (there ns asked)]

/-- Informers of single namespaces only. -/
theorem parts_listed (distinct : namespaces.Nodup) (apart : ⟨gvr, ""⟩ ∉ s.keys) (some_ : namespaces ≠ [])
    (there : ∀ ns ∈ namespaces, ⟨gvr, ns⟩ ∈ s.keys) :
    (∃ items, listNamespaces config s gvr namespaces = .ok items ∧ items.length =
        (namespaces.map fun ns => (byIndex (s.store ⟨gvr, ns⟩) ns).length).sum) ↔
      Aligned config s gvr namespaces := by
  rw [Aligned, listNamespaces]
  simp only [some_, false_or]
  cases kind : gvrIsNamespaced config gvr with
  | true =>
    have entries : ∀ ns ∈ namespaces, readEntries config s.keys gvr ns = [⟨gvr, ns⟩] :=
      fun ns asked => (part_items apart (there ns asked)).1
    have served : ∀ ns ∈ namespaces, readEntries config s.keys gvr ns ≠ [] := by
      intro ns asked
      simp [entries ns asked]
    have items : ∀ ns ∈ namespaces, (indexerItems s (readEntries config s.keys gvr ns) ns).length =
        (byIndex (s.store ⟨gvr, ns⟩) ns).length := by
      intro ns asked
      rw [entries ns asked, (@part_items config s gvr apart ns (there ns asked)).2]
    simp only [Bool.true_eq_false, if_false, if_true, list_each served, Except.ok.injEq,
      exists_eq_left', length_flatMap]
    rw [map_congr_left items]
    simp [apart]
  | false =>
    have reached : Reaches s gvr namespaces := Or.inr there
    simp only [if_true, list, Bool.false_eq_true, if_false, reached, true_imp_iff]
    cases entries : readEntries config s.keys gvr "" with
    | nil => simp
    | cons key rest =>
      have union := union_entries apart (entries ▸ cons_ne_nil key rest)
      have some_keys : typeKeys s gvr ≠ [] := by
        rw [← union, entries]
        exact cons_ne_nil key rest
      have items : indexerItems s (typeKeys s gvr) "" = (typeKeys s gvr).flatMap s.store := by
        simp [indexerItems]
      rw [← entries, union, union_counted distinct apart there]
      simp only [Except.ok.injEq, exists_eq_left', items]
      rw [eq_comm, length_filter_eq]
      simp only [mem_flatMap, forall_exists_index, and_imp, decide_eq_true_eq, ne_eq,
        some_keys, not_false_eq_true, true_and]
      exact ⟨fun all key inside o held => all o key inside held,
        fun all o key inside held => all key inside o held⟩

/-- Without namespaces both read the same informers to the end. -/
theorem all_listed (synced : AllSynced s) {n : Nat} (counted : count config s gvr [] = .ok n) :
    ∃ items, listNamespaces config s gvr [] = .ok items ∧ items.length = n := by
  rw [count] at counted
  simp only [listNamespaces, true_or, if_true]
  by_cases whole : ⟨gvr, ""⟩ ∈ s.keys
  · have ready := synced _ whole
    simp only [whole, ready, if_true, Bool.true_eq_false, if_false, Except.ok.injEq] at counted
    exact ⟨s.store ⟨gvr, ""⟩, by simp [list, readEntries, whole, indexerItems], counted⟩
  · simp only [whole, if_false, if_true] at counted
    by_cases strict : config.namespaceFallback = ""
    · simp [strict] at counted
    · rw [if_neg strict] at counted
      have union : readEntries config s.keys gvr "" = s.keys.filter fun key => decide (key.gvr = gvr) := by
        simp [readEntries, whole, strict]
      rw [list, union]
      have known := filter_subset_self (p := fun key => decide (key.gvr = gvr)) s.keys
      cases entries : s.keys.filter fun key => decide (key.gvr = gvr) with
      | nil =>
        rw [entries] at counted
        cases counted
      | cons key rest =>
        rw [entries] at counted known
        simp only [count_all synced known, Except.ok.injEq] at counted
        refine ⟨_, rfl, ?_⟩
        rw [← counted, indexerItems, length_flatMap]
        simp

/-- For every set of informers that have synced, every type and all distinct namespaces: the counts
   agree with each other, and with the listing exactly when the namespaces are aligned. -/
theorem counts_agree_iff (config : DynamicCacheConfig) (s : Informers) (synced : AllSynced s)
    (gvr : GVR) (namespaces : List String) (distinct : namespaces.Nodup) :
    Agree config s gvr namespaces ↔ Aligned config s gvr namespaces := by
  have agree_iff : Agree config s gvr namespaces ↔ ∀ n, count config s gvr namespaces = .ok n →
        ∃ items, listNamespaces config s gvr namespaces = .ok items ∧ items.length = n :=
    ⟨fun agree => agree.listed, fun listed => ⟨listed, watched_count synced namespaces⟩⟩
  rw [agree_iff]
  by_cases all : namespaces = []
  · subst all
    exact iff_of_true (fun n => all_listed synced) (Or.inl rfl)
  · by_cases whole : ⟨gvr, ""⟩ ∈ s.keys
    · have counted : count config s gvr namespaces =
          .ok (countByNamespaces (s.store ⟨gvr, ""⟩) namespaces) := by
        simp [count, whole, synced _ whole, all]
      rw [counted, ← whole_listed distinct whole all]
      simp
    · have counted := @count_each s gvr synced namespaces
      have parts : count config s gvr namespaces = countEach s gvr namespaces := by
        rw [count, if_neg whole, if_neg all]
      rw [← parts] at counted
      by_cases there : ∀ ns ∈ namespaces, ⟨gvr, ns⟩ ∈ s.keys
      · rw [← parts_listed distinct whole all there]
        rw [if_pos there] at counted
        cases result : count config s gvr namespaces with
        | error err =>
          rw [result] at counted
          cases counted
        | ok n =>
          rw [result] at counted
          have same : n = _ := Option.some.inj counted
          rw [← same]
          simp
      · rw [if_neg there] at counted
        have refused : ∀ n, count config s gvr namespaces ≠ .ok n := by
          intro n result
          rw [result] at counted
          cases counted
        refine iff_of_true (fun n result => absurd result (refused n)) (Or.inr ?_)
        split
        · intro _ whole'
          exact absurd whole' whole
        · rintro (whole' | there')
          · exact absurd whole' whole
          · exact absurd there' there

section Run

def pools : GVR := ⟨"karpenter.sh", "v1", "nodepools"⟩

def widgets : GVR := ⟨"example.com", "v1", "widgets"⟩

def discovered : Discovery :=
  ⟨fun _ => true, some [⟨"karpenter.sh", "v1", "nodepools", false⟩, ⟨"example.com", "v1", "widgets", true⟩]⟩

def clusterCache : DynamicCacheConfig := ⟨some discovered, false, "", "", by decide⟩

/-- Cluster-wide informers, with one object each. -/
def watching : Informers where
  keys := [⟨pools, ""⟩, ⟨widgets, ""⟩]
  store := fun key => if key.gvr = pools then [⟨"", "default"⟩] else [⟨"shop", "w"⟩]
  hasSynced := fun _ => true
  distinct := by decide
  confined := by simp

theorem watching_synced : AllSynced watching := fun _ _ => rfl

theorem widgets_agree : Agree clusterCache watching widgets ["shop", "cart"] := by
  refine (counts_agree_iff clusterCache watching watching_synced widgets ["shop", "cart"]
    (by decide)).mpr (Or.inr ?_)
  have kind : gvrIsNamespaced clusterCache widgets = true := by decide
  rw [if_pos kind]
  intro asked
  exact absurd asked (by decide)

/-- One node pool is listed for any namespaces, and none is counted. -/
theorem pools_uncounted : count clusterCache watching pools ["shop"] = .ok 0 ∧
    listNamespaces clusterCache watching pools ["shop"] = .ok [⟨"", "default"⟩] ∧
    ¬ Agree clusterCache watching pools ["shop"] := by
  have counted : count clusterCache watching pools ["shop"] = .ok 0 := by decide
  have listed : listNamespaces clusterCache watching pools ["shop"] = .ok [⟨"", "default"⟩] := by
    decide
  refine ⟨counted, listed, fun agree => ?_⟩
  obtain ⟨items, same, none⟩ := agree.listed 0 counted
  rw [listed, Except.ok.injEq] at same
  rw [← same] at none
  cases none

end Run

end Agreement

end DynamicCounts
