import Radar.Base.Arrange
import Radar.Base.Paging
import Radar.Timeline.Filter
import Radar.Timeline.Rfc3339

/- internal/timeline/sqlite_store.go: the events table and the statements the store runs on it. -/
namespace SqliteStore
open Timeline TimelineFilter TextOrder Rfc3339 Arrange

/-- A row of events, kept as the event it was inserted from, and the second it was created at. The
   columns are functions of these. -/
structure Row where
  event : TimelineEvent
  createdAt : Int
  deriving DecidableEq, Repr

def Row.id (r : Row) : String := r.event.id

def Row.timestamp (r : Row) : List Char := formatRFC3339Nano r.event.timestamp

def Row.ownerKind (r : Row) : String := match r.event.owner with
  | none => ""
  | some owner => owner.kind

def Row.ownerName (r : Row) : String := match r.event.owner with
  | none => ""
  | some owner => owner.name

/-- The event read back from a row, its timestamp by time.Parse. -/
def scanEvent (parse : List Char → Time) (r : Row) : TimelineEvent := { r.event with
    timestamp := parse r.timestamp
    owner := if r.ownerKind = "" then none else some ⟨r.ownerKind, r.ownerName⟩ }

/-- The table, whose identifiers are its primary key. -/
structure Table where
  rows : List Row
  keyed : (rows.map Row.id).Nodup

def Table.insertOrIgnore (t : Table) (r : Row) : Table := if taken : r.id ∈ t.rows.map Row.id then t
  else
    { rows := t.rows ++ [r]
      keyed := by
        rw [List.map_append, List.map_singleton, List.nodup_append]
        refine ⟨t.keyed, List.nodup_singleton _, ?_⟩
        intro id old id' new same
        rw [List.mem_singleton] at new
        exact taken (new ▸ same ▸ old) }

def Table.deleteWhere (t : Table) (condition : Row → Bool) : Table where
  rows := t.rows.filter fun r => !condition r
  keyed := t.keyed.sublist (List.filter_sublist.map _)

structure Store where
  table : Table
  filterCache : FilterCache

def newSQLiteStore : Store := ⟨⟨[], List.nodup_nil⟩, fun _ => none⟩

/-- AppendBatch, every event with the second its insert runs in. -/
def Store.appendBatch (s : Store) (entries : List Row) : Store :=
  { s with table := entries.foldl Table.insertOrIgnore s.table }

/-- The WHERE clause a query's options are written into. -/
def selected (opts : QueryOptions) (r : Row) : Bool :=
  (opts.namespaces.isEmpty || opts.namespaces.contains r.event.namespace_) &&
  (opts.kinds.isEmpty || opts.kinds.contains r.event.kind) &&
  (opts.names.isEmpty || opts.names.contains r.event.name) &&
  (opts.since.isZero || lexCompare r.timestamp (formatRFC3339Nano opts.since) != .lt) &&
  (opts.until_.isZero || lexCompare r.timestamp (formatRFC3339Nano opts.until_) != .gt) &&
  (opts.sources.isEmpty || opts.sources.contains r.event.source) &&
  (opts.eventTypes.isEmpty || opts.eventTypes.contains r.event.eventType) &&
  !(opts.excludeDeleted && r.event.eventType == .delete) &&
  (opts.clusterContext == "" || r.event.clusterContext == opts.clusterContext)

/-- The filters applied to the rows a page has brought back. -/
def postFilter (opts : QueryOptions) (cf : Option CompiledFilter) (e : TimelineEvent) : Bool :=
  (match cf with | none => true | some cf => cf.matches e) &&
  !(e.isManaged && !opts.includeManaged && !includesManaged cf) &&
  !(!opts.includeK8sEvents && e.source == .k8sEvent)

def newestFirst (x y : Row) : Prop := lexCompare x.timestamp y.timestamp ≠ .lt

/-- What Query may answer: SQLite leaves the order of rows with one timestamp open. -/
def Store.Query (s : Store) (parse : List Char → Time) (opts : QueryOptions)
    (events : List TimelineEvent) : Prop :=
  ∃ rows, Arranged newestFirst (s.table.rows.filter (selected opts)) rows ∧
    events = ((Paging.page opts.offset.toNat opts.pageLimit rows).map (scanEvent parse)).filter
      (postFilter opts (queryFilter s.filterCache opts).1)

/-- time.Now().Add(-maxAge): a Duration's negation wraps at 64 bits, and the zone is the process's
   own at the instant it comes to. -/
def cutoff (zone : Int → Int) (now maxAge : Int) : Time := let ns := now + (-maxAge).bmod (2 ^ 64)
  ⟨ns, zone ns⟩

def cleanup (zone : Int → Int) (now maxAge : Int) (t : Table) : Table := t.deleteWhere fun r =>
    lexCompare r.timestamp (formatRFC3339Nano (cutoff zone now maxAge)) == .lt

def oldestFirst (x y : Row) : Prop :=
  (lexCompare x.timestamp y.timestamp).then (cmp x.createdAt y.createdAt) ≠ .gt

/-- What deleteOldestEvents may leave. A negative limit is none. -/
def deleteOldestEvents (limit : Int) (t left : Table) : Prop := ∃ rows, Arranged oldestFirst t.rows rows ∧
    left = t.deleteWhere fun r =>
      ((if limit < 0 then rows else rows.take limit.toNat).map Row.id).contains r.id

theorem append_fresh {entries : List Row} (distinct : (entries.map Row.id).Nodup) (t : Table)
    (fresh : ∀ r ∈ entries, r.id ∉ t.rows.map Row.id) :
    (entries.foldl Table.insertOrIgnore t).rows = t.rows ++ entries := by
  induction entries generalizing t with
  | nil => simp
  | cons r rest ih =>
    rw [List.map_cons, List.nodup_cons] at distinct
    have new : r.id ∉ t.rows.map Row.id := fresh r List.mem_cons_self
    have grown : (t.insertOrIgnore r).rows = t.rows ++ [r] := by
      rw [Table.insertOrIgnore, dif_neg new]
    rw [List.foldl_cons, ih distinct.2, grown, List.append_assoc, List.singleton_append]
    intro later member
    rw [grown, List.map_append, List.mem_append, not_or]
    refine ⟨fresh later (List.mem_cons_of_mem r member), ?_⟩
    intro same
    rw [List.map_singleton, List.mem_singleton] at same
    exact distinct.1 (same ▸ List.mem_map_of_mem member)

theorem table_nodup (t : Table) : t.rows.Nodup := List.Nodup.of_map _ t.keyed

theorem mem_delete_where {t : Table} {condition : Row → Bool} {r : Row} :
    r ∈ (t.deleteWhere condition).rows ↔ r ∈ t.rows ∧ condition r = false := by
  simp [Table.deleteWhere]

end SqliteStore
