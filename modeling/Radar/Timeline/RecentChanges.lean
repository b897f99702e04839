import Radar.Base.GoText
import Radar.Timeline.FlatPaging

/- internal/meaningfulchanges/meaningfulchanges.go: the candidates of the change feed, and whether they
   are all there are when the fetch says it was not saturated. -/
namespace RecentChanges
open Timeline TimelineFilter Rfc3339 FlatPaging List
variable {opts : QueryOptions}

structure Query where
  namespaces : List String
  kinds : List String
  name : String
  since : Int
  limit : Int
  fieldLimit : Int

/-- What the fetch reads beside the store: the discovery's kinds, the active context, and the clock at
    each of its queries. -/
structure Cluster where
  canonicalKind : String → String
  activeContext : String
  now : Nat → Time

variable {k : Cluster} {q : Query}

def defaultSince : Int := 3600000000000
def defaultLimit : Int := 20
def defaultFieldLimit : Int := 10
def maxCandidateLimit : Int := 100
def lifecycleCandidateLimit : Int := 50

def configKinds : List String := ["ConfigMap"]

def specKinds : List String :=
  ["Deployment", "StatefulSet", "DaemonSet", "Service", "Ingress", "HorizontalPodAutoscaler",
    "Application", "Kustomization", "HelmRelease", "GitRepository", "OCIRepository",
    "HelmRepository", "ResourceQuota", "LimitRange", "MutatingWebhookConfiguration",
    "ValidatingWebhookConfiguration"]

def lifecycleOnlyKinds : List String := ["Secret"]

def normalizeQuery (k : Cluster) (q : Query) : Query := { q with
    since := if q.since ≤ 0 then defaultSince else q.since
    limit := if q.limit ≤ 0 then defaultLimit else if 50 < q.limit then 50 else q.limit
    fieldLimit :=
      if q.fieldLimit ≤ 0 then defaultFieldLimit else if 50 < q.fieldLimit then 50 else q.fieldLimit
    kinds := q.kinds.map k.canonicalKind }

def candidateLimit (finalLimit : Int) (nameFiltered : Bool) : Int := let limit := finalLimit * 4
  let limit := if limit < 50 then 50 else limit
  let limit := if nameFiltered ∧ limit < 100 then 100 else limit
  if maxCandidateLimit < limit then maxCandidateLimit else limit

def compactKinds (k : Cluster) (kinds : List String) : List String :=
  Firsts.firsts id [] ((kinds.map k.canonicalKind).filter fun kind => kind ≠ "")

def compactNames (name : String) : List String :=
  if GoText.trimSpace name = "" then [] else [GoText.trimSpace name]

/-- The options of the i-th query, whose window begins so long before its own time. -/
def queryCandidates (k : Cluster) (q : Query) (i : Nat) (kinds : List String) (limit : Int) :
    QueryOptions where
  namespaces := q.namespaces
  kinds := compactKinds k kinds
  names := compactNames q.name
  since := ⟨(k.now i).ns - q.since, (k.now i).offset⟩
  until_ := ⟨0, 0⟩
  sources := [.informer]
  eventTypes := []
  clusterContext := k.activeContext
  filterPreset := ""
  limit := limit
  offset := 0
  includeManaged := false
  excludeDeleted := false
  includeK8sEvents := false

def queryLifecycleCandidates (k : Cluster) (q : Query) (i : Nat) (kinds : List String) : QueryOptions :=
  { queryCandidates k q i kinds lifecycleCandidateLimit with eventTypes := [.add, .delete] }

/-- The queries that recent asks the store, one after the other. -/
def queries (k : Cluster) (q : Query) : List QueryOptions := if 0 < q.kinds.length ∨ q.name ≠ "" then
    [queryCandidates k q 0 q.kinds (candidateLimit q.limit (q.name ≠ "")),
      queryLifecycleCandidates k q 1 q.kinds]
  else
    [queryCandidates k q 0 configKinds (candidateLimit q.limit false),
      queryCandidates k q 1 specKinds (candidateLimit q.limit false),
      queryLifecycleCandidates k q 2 (configKinds ++ specKinds ++ lifecycleOnlyKinds)]

def eventTypeText : EventType → String
  | .add => "add"
  | .update => "update"
  | .delete => "delete"
  | .normal => "Normal"
  | .warning => "Warning"
  | .other text _ => text

def dedupeKey (e : TimelineEvent) : String := if e.id ≠ "" then e.id
  else String.ofList (formatRFC3339Nano e.timestamp) ++ "/" ++ e.kind ++ "/" ++ e.namespace_ ++ "/" ++
    e.name ++ "/" ++ eventTypeText e.eventType

def dedupeEvents (events : List TimelineEvent) : List TimelineEvent := Firsts.firsts dedupeKey [] events

def resourceKey (e : TimelineEvent) : String := e.kind ++ "/" ++ e.namespace_ ++ "/" ++ e.name

/-- The newest add of a resource that replaced a deleted one. -/
def recreates (events : List TimelineEvent) (key : String) : Option Time := events.foldl (fun held e =>
    if e.eventType = .add ∧ e.reason = "recreated" ∧ resourceKey e = key ∧
        held.all (fun ts => e.timestamp.after ts) then some e.timestamp
    else held) none

def coalesceRecreatePairs (events : List TimelineEvent) : List TimelineEvent :=
  events.filter fun e => !(e.eventType == .delete &&
    (recreates events (resourceKey e)).any fun ts => !e.timestamp.after ts)

/-- The ranked changes, and whether some query's answer was as long as its limit. -/
def recent {γ : Type} (ask : QueryOptions → List TimelineEvent)
    (rankedChanges : List TimelineEvent → String → Int → Int → γ) (k : Cluster) (q : Query) :
    γ × Bool :=
  let q := normalizeQuery k q
  let merged := coalesceRecreatePairs (dedupeEvents ((queries k q).flatMap ask))
  (rankedChanges merged q.name q.limit q.fieldLimit,
    (queries k q).any fun opts => decide (opts.limit ≤ (ask opts).length))

/-- A fetch that does not say it was saturated has seen every event its queries admit, and ranks what
    it would rank without limits. -/
structure Complete (ask unlimited : QueryOptions → List TimelineEvent) (k : Cluster) (q : Query) :
    Prop where
  considered : ∀ (γ : Type) (rankedChanges : List TimelineEvent → String → Int → Int → γ),
    (recent ask rankedChanges k q).2 = false →
      ∀ opts ∈ queries k (normalizeQuery k q), ask opts = unlimited opts
  ranked : ∀ (γ : Type) (rankedChanges : List TimelineEvent → String → Int → Int → γ),
    (recent ask rankedChanges k q).2 = false →
      (recent ask rankedChanges k q).1 = (recent unlimited rankedChanges k q).1

section Limits

theorem candidate_limit_within {limit : Int} (named : Bool) :
    50 ≤ candidateLimit limit named ∧ candidateLimit limit named ≤ 100 := by
  unfold candidateLimit maxCandidateLimit
  cases named <;> grind

theorem query_limit (asked : opts ∈ queries k q) : 50 ≤ opts.limit ∧ opts.limit ≤ 100 := by
  have lifecycle : (50 : Int) ≤ lifecycleCandidateLimit ∧ lifecycleCandidateLimit ≤ 100 := by decide
  unfold queries at asked
  split at asked
  next =>
    simp only [mem_cons, not_mem_nil, or_false] at asked
    rcases asked with rfl | rfl
    · exact candidate_limit_within _
    · exact lifecycle
  next =>
    simp only [mem_cons, not_mem_nil, or_false] at asked
    rcases asked with rfl | rfl | rfl
    · exact candidate_limit_within _
    · exact candidate_limit_within _
    · exact lifecycle

theorem query_page (asked : opts ∈ queries k q) : (opts.pageLimit : Int) = opts.limit := by
  obtain ⟨low, high⟩ := query_limit asked
  exact (page_limit_inside (by omega) (by omega)).symm

end Limits

section Fetch
variable {ask unlimited : QueryOptions → List TimelineEvent} {q : Query}

theorem saturated_iff {γ : Type}
    (rankedChanges : List TimelineEvent → String → Int → Int → γ) :
    (recent ask rankedChanges k q).2 = false ↔
      ∀ opts ∈ queries k (normalizeQuery k q), ((ask opts).length : Int) < opts.limit := by
  simp [recent]

/-- What is complete about a fetch is its candidates. -/
theorem complete_iff : Complete ask unlimited k q ↔
    ((∀ opts ∈ queries k (normalizeQuery k q), ((ask opts).length : Int) < opts.limit) →
      ∀ opts ∈ queries k (normalizeQuery k q), ask opts = unlimited opts) := by
  constructor
  · intro complete below
    exact complete.considered Unit (fun _ _ _ _ => ()) ((saturated_iff _).mpr below)
  · intro considered
    constructor
    · intro γ rankedChanges below
      exact considered ((saturated_iff rankedChanges).mp below)
    · intro γ rankedChanges below
      have same := considered ((saturated_iff rankedChanges).mp below)
      have merged : (queries k (normalizeQuery k q)).flatMap ask =
          (queries k (normalizeQuery k q)).flatMap unlimited := by
        rw [flatMap_def, flatMap_def, map_congr_left same]
      simp only [recent, merged]

end Fetch

section Stores
variable {q : Query}

theorem memory_complete (m : MemoryStore.Store) (k : Cluster) (q : Query) :
    Complete (fun opts => (m.query opts).1) (memoryMatching m) k q := by
  rw [complete_iff]
  intro below opts asked
  have page := query_page asked
  have short := below opts asked
  rw [memory_page, length_take] at short
  rw [memory_page, take_of_length_le (by omega)]

/-- The queries' answers from SQLite, which reads the rows of each in some order, and the answers it
    would give without the limits. -/
def sqliteAsk (s : SqliteStore.Store) (readings : ∀ opts, Reading s opts)
    (parse : List Char → Time) (opts : QueryOptions) : List TimelineEvent :=
  (readings opts).query parse opts.pageLimit

def sqliteUnlimited (s : SqliteStore.Store) (readings : ∀ opts, Reading s opts)
    (parse : List Char → Time) (opts : QueryOptions) : List TimelineEvent :=
  ((readings opts).events parse).filter (postFilters s opts)

/-- Some query's first rows are as many as its limit and none of them is dropped, or no query has a row
    behind its limit that would not be dropped. -/
def FullOrExhausted (s : SqliteStore.Store) (readings : ∀ opts, Reading s opts)
    (parse : List Char → Time) (asked : List QueryOptions) : Prop :=
  (∃ opts ∈ asked, (∀ e ∈ ((readings opts).events parse).take opts.limit.toNat,
      postFilters s opts e = true) ∧ opts.limit.toNat ≤ ((readings opts).events parse).length) ∨
    ∀ opts ∈ asked, ∀ e ∈ ((readings opts).events parse).drop opts.limit.toNat, postFilters s opts e = false

/-- A page falls short where the statement's rows are too few or one of them is dropped. -/
theorem page_short_iff (s : SqliteStore.Store) (readings : ∀ opts, Reading s opts)
    (parse : List Char → Time)
    (asked : opts ∈ queries k (normalizeQuery k q)) :
    ((sqliteAsk s readings parse opts).length : Int) < opts.limit ↔
      ¬ ((∀ e ∈ ((readings opts).events parse).take opts.limit.toNat, postFilters s opts e = true) ∧
          opts.limit.toNat ≤ ((readings opts).events parse).length) := by
  have page := query_page asked
  have count : opts.limit.toNat = opts.pageLimit := by omega
  have fewer : (sqliteAsk s readings parse opts).length ≤ opts.pageLimit :=
    (length_filter_le _ _).trans (length_take_le _ _)
  rw [count, ← full_iff]
  change _ ↔ ¬ (sqliteAsk s readings parse opts).length = opts.pageLimit
  omega

theorem page_seen_iff (s : SqliteStore.Store) (readings : ∀ opts, Reading s opts)
    (parse : List Char → Time)
    (asked : opts ∈ queries k (normalizeQuery k q)) :
    sqliteAsk s readings parse opts = sqliteUnlimited s readings parse opts ↔
      ∀ e ∈ ((readings opts).events parse).drop opts.limit.toNat, postFilters s opts e = false := by
  have page := query_page asked
  have count : opts.limit.toNat = opts.pageLimit := by omega
  rw [count, none_passes_iff]
  constructor
  · intro same
    exact congrArg length same
  · intro level
    exact ((take_sublist _ _).filter _).eq_of_length level

theorem sqlite_complete_iff (s : SqliteStore.Store) (readings : ∀ opts, Reading s opts)
    (parse : List Char → Time) (k : Cluster) (q : Query) :
    Complete (sqliteAsk s readings parse) (sqliteUnlimited s readings parse) k q ↔
      FullOrExhausted s readings parse (queries k (normalizeQuery k q)) := by
  rw [complete_iff, FullOrExhausted]
  constructor
  · intro complete
    by_contra neither
    rw [not_or, not_exists] at neither
    apply neither.2
    intro opts asked
    refine (page_seen_iff s readings parse asked).mp (complete ?_ opts asked)
    intro other asked'
    exact (page_short_iff s readings parse asked').mpr fun full => neither.1 other ⟨asked', full⟩
  · rintro (⟨opts, asked, full⟩ | exhausted) below
    · exact absurd full ((page_short_iff s readings parse asked).mp (below opts asked))
    · intro opts asked
      exact (page_seen_iff s readings parse asked).mpr (exhausted opts asked)

/-- The feed is complete on the memory store, and on SQLite exactly where a query is full or none has
    rows left that count. -/
theorem recent_complete_iff (k : Cluster) (q : Query) (m : MemoryStore.Store)
    (s : SqliteStore.Store) (readings : ∀ opts, Reading s opts) (parse : List Char → Time) :
    Complete (fun opts => (m.query opts).1) (memoryMatching m) k q ∧
      (Complete (sqliteAsk s readings parse) (sqliteUnlimited s readings parse) k q ↔
        FullOrExhausted s readings parse (queries k (normalizeQuery k q))) :=
  ⟨memory_complete m k q, sqlite_complete_iff s readings parse k q⟩

end Stores

section Inputs
open SqliteStore TextOrder

def configChange (id : String) (owner : Option OwnerInfo) (second : Int) : Row where
  event := { MemoryStore.zeroEvent with
    id := id, source := .informer, clusterContext := "prod", kind := "ConfigMap",
    namespace_ := "shop", name := "settings", eventType := .update,
    timestamp := ⟨second * 1000000000, 0⟩, owner := owner }
  createdAt := 0

/-- Fifty changes of ConfigMaps that a Deployment owns, at noon of January 1, 2024. -/
def crowd : List Row := (List.range 50).map fun i =>
    configChange (String.ofList (List.replicate i 'x')) (some ⟨"Deployment", "web"⟩) 63839707200

/-- A minute before them somebody changed one that nothing owns. -/
def crowded : List Row := crowd ++ [configChange "settings" none 63839707140]

theorem crowd_once : (crowd.map Row.id).Nodup := by
  rw [crowd, map_map]
  apply List.Nodup.map _ nodup_range
  intro i j same
  have lists := congrArg (fun s => s.toList.length) same
  simpa [Row.id, configChange] using lists

theorem crowded_once : (crowded.map Row.id).Nodup := by
  rw [crowded, map_append, nodup_append]
  refine ⟨crowd_once, nodup_singleton _, ?_⟩
  intro id member id' single
  obtain ⟨r, listed, rfl⟩ := mem_map.mp member
  obtain ⟨i, _, rfl⟩ := mem_map.mp listed
  rw [map_singleton, mem_singleton] at single
  rw [single]
  intro same
  have lists := congrArg (fun s => 's' ∈ s.toList) same
  simp [Row.id, configChange, mem_replicate] at lists

def crowdedStore : SqliteStore.Store := ⟨⟨crowded, crowded_once⟩, fun _ => none⟩

theorem crowded_newest_first : crowded.Pairwise newestFirst := by
  have alike : ∀ x ∈ crowd, ∀ y ∈ crowd, newestFirst x y := by
    intro x member y member'
    obtain ⟨i, _, rfl⟩ := mem_map.mp member
    obtain ⟨j, _, rfl⟩ := mem_map.mp member'
    change lexCompare (formatRFC3339Nano ⟨63839707200 * 1000000000, 0⟩)
      (formatRFC3339Nano ⟨63839707200 * 1000000000, 0⟩) ≠ .lt
    rw [lex_self]
    decide
  have later : ∀ x ∈ crowd, newestFirst x (configChange "settings" none 63839707140) := by
    intro x member
    obtain ⟨i, _, rfl⟩ := mem_map.mp member
    change lexCompare (formatRFC3339Nano ⟨63839707200 * 1000000000, 0⟩)
      (formatRFC3339Nano ⟨63839707140 * 1000000000, 0⟩) ≠ .lt
    decide +kernel
  rw [crowded, pairwise_append]
  refine ⟨pairwise_of_forall_mem_list alike, pairwise_singleton _ _, ?_⟩
  intro x member y single
  rw [mem_singleton] at single
  rw [single]
  exact later x member

/-- The rows come in the order of the table. -/
def crowdedReading (opts : QueryOptions) : Reading crowdedStore opts where
  rows := crowded.filter (selected opts)
  arranged := ⟨List.Perm.refl _, crowded_newest_first.filter _⟩

def settingsQuery : Query := ⟨["shop"], ["ConfigMap"], "", 0, 5, 0⟩

def prodCluster : Cluster := ⟨id, "prod", fun _ => ⟨63839707260 * 1000000000, 0⟩⟩

def noonParse (_ : List Char) : Time := ⟨63839707200 * 1000000000, 0⟩

/-- The owned changes fill the page and are dropped, and the feed says that it has seen everything. -/
theorem settings_change_unseen : ¬ Complete (sqliteAsk crowdedStore crowdedReading noonParse)
      (sqliteUnlimited crowdedStore crowdedReading noonParse) prodCluster settingsQuery := by
  rw [sqlite_complete_iff]
  unfold FullOrExhausted
  decide +kernel

end Inputs

end RecentChanges
