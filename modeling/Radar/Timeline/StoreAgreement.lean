import Radar.Timeline.MemoryStore
import Radar.Timeline.SqliteStore

/- The two event stores, asked the same query after the same appends. -/
namespace StoreAgreement
open Timeline TimelineFilter TextOrder Rfc3339 Arrange SqliteStore List

/-- The options both stores compare with an event's own fields, its timestamp left out. -/
def chosen (opts : QueryOptions) (e : TimelineEvent) : Bool :=
  (opts.namespaces.isEmpty || opts.namespaces.contains e.namespace_) &&
  (opts.kinds.isEmpty || opts.kinds.contains e.kind) &&
  (opts.names.isEmpty || opts.names.contains e.name) &&
  (opts.sources.isEmpty || opts.sources.contains e.source) &&
  (opts.eventTypes.isEmpty || opts.eventTypes.contains e.eventType) &&
  !(opts.excludeDeleted && e.eventType == .delete) &&
  (opts.clusterContext == "" || e.clusterContext == opts.clusterContext)

def inRange (opts : QueryOptions) (e : TimelineEvent) : Bool :=
  chosen opts e && (opts.since.isZero || !e.timestamp.before opts.since) &&
    (opts.until_.isZero || !e.timestamp.after opts.until_)

theorem matches_filters_eq (e : TimelineEvent) (opts : QueryOptions) (cf : Option CompiledFilter) :
    MemoryStore.matchesFilters e opts cf = (inRange opts e && postFilter opts cf e) := by
  unfold MemoryStore.matchesFilters inRange chosen postFilter includesManaged
  cases cf <;> simp only [Bool.not_false] <;> ac_rfl

/-- Where the texts of the timestamps stand for the times: the rows against the window, and the rows
   in the window against each other. -/
structure TimesKept (opts : QueryOptions) (entries : List Row) : Prop where
  since : opts.since.isZero = false → ∀ r ∈ entries, chosen opts r.event = true →
    KeepsBefore r.event.timestamp opts.since
  until_ : opts.until_.isZero = false → ∀ r ∈ entries, chosen opts r.event = true →
    KeepsBefore opts.until_ r.event.timestamp
  order : ∀ x ∈ entries, ∀ y ∈ entries, inRange opts x.event = true → inRange opts y.event = true →
    x.event.timestamp.ns < y.event.timestamp.ns → KeepsOrder x.event.timestamp y.event.timestamp

section Window
variable {opts : QueryOptions} {entries : List Row}

theorem selected_eq (kept : TimesKept opts entries) {r : Row} (present : r ∈ entries) :
    selected opts r = inRange opts r.event := by
  have parts : selected opts r = (chosen opts r.event &&
      (opts.since.isZero || lexCompare r.timestamp (formatRFC3339Nano opts.since) != .lt) &&
      (opts.until_.isZero || lexCompare r.timestamp (formatRFC3339Nano opts.until_) != .gt)) := by
    unfold selected chosen
    ac_rfl
  rw [parts, inRange]
  cases fields : chosen opts r.event with
  | false => rfl
  | true =>
    have low : (opts.since.isZero || lexCompare r.timestamp (formatRFC3339Nano opts.since) != .lt) =
          (opts.since.isZero || !r.event.timestamp.before opts.since) := by
      cases zero : opts.since.isZero with
      | true => rfl
      | false =>
        have agree := (keeps_before_iff _ _).mpr (kept.since zero r present fields)
        rw [Bool.eq_iff_iff]
        simp [Time.before, Row.timestamp, agree]
    have high : (opts.until_.isZero || lexCompare r.timestamp (formatRFC3339Nano opts.until_) != .gt) =
          (opts.until_.isZero || !r.event.timestamp.after opts.until_) := by
      cases zero : opts.until_.isZero with
      | true => rfl
      | false =>
        have agree := (keeps_before_iff _ _).mpr (kept.until_ zero r present fields)
        rw [← lex_swap] at agree
        rw [Bool.eq_iff_iff]
        simpa [Time.after, Row.timestamp] using agree.not
    rw [low, high]

/-- The rows of the window, the newest first. -/
def newest (opts : QueryOptions) (entries : List Row) : List Row :=
  (entries.filter fun r => inRange opts r.event).reverse

theorem newest_arranged (kept : TimesKept opts entries)
    (increasing : entries.Pairwise fun x y => x.event.timestamp.ns < y.event.timestamp.ns) :
    Arranged newestFirst (entries.filter (selected opts)) (newest opts entries) := by
  have same : entries.filter (selected opts) = entries.filter fun r => inRange opts r.event :=
    filter_congr fun r present => selected_eq kept present
  rw [same]
  constructor
  · exact reverse_perm _
  · rw [newest, pairwise_reverse]
    apply (increasing.filter _).imp_of_mem
    intro x y present present' older
    rw [mem_filter] at present present'
    have order := (keeps_order_iff _ _).mpr
      (kept.order x present.1 y present'.1 present.2 present'.2 older)
    rw [(cmp_eq_lt_iff _ _).mpr older] at order
    unfold newestFirst
    rw [← lex_swap, Row.timestamp, Row.timestamp, order]
    decide

theorem newest_first_iff (x y : Row) : newestFirst x y ↔ lexCompare y.timestamp x.timestamp ≠ .gt := by
  rw [newestFirst, ← lex_swap]
  cases lexCompare y.timestamp x.timestamp <;> simp

/-- Rows of one text are read back with one time, and so are one row. -/
theorem newest_strict {parse : List Char → Time}
    (stored : ∀ r ∈ entries, scanEvent parse r = r.event)
    (increasing : entries.Pairwise fun x y => x.event.timestamp.ns < y.event.timestamp.ns)
    {x y : Row} (present : x ∈ entries) (present' : y ∈ entries) (first : newestFirst x y)
    (second : newestFirst y x) : x = y := by
  have texts : y.timestamp = x.timestamp :=
    lex_le_antisymm ((newest_first_iff x y).mp first) ((newest_first_iff y x).mp second)
  have times : x.event.timestamp = y.event.timestamp := by
    rw [← stored x present, ← stored y present', scanEvent, scanEvent, texts]
  have distinct : (entries.map fun r => r.event.timestamp.ns).Nodup :=
    pairwise_map.mpr (increasing.imp fun less => less.ne)
  exact inj_on_of_nodup_map distinct present present' (by rw [times])

end Window

section Agreement
variable {size : Int} {entries : List Row} {parse : List Char → Time}

/-- One interface, one answer: SQLite answers a query with the memory store's list and nothing else. -/
def StoresAgree (size : Int) (entries : List Row) (parse : List Char → Time)
    (opts : QueryOptions) : Prop :=
  ∀ answer, (newSQLiteStore.appendBatch entries).Query parse opts answer ↔
    answer = (((MemoryStore.newMemoryStore size).appendBatch (entries.map Row.event)).query opts).1

theorem sqlite_answer (stored : ∀ r ∈ entries, scanEvent parse r = r.event)
    (distinct : (entries.map Row.id).Nodup)
    (increasing : entries.Pairwise fun x y => x.event.timestamp.ns < y.event.timestamp.ns)
    {opts : QueryOptions} (kept : TimesKept opts entries) (answer : List TimelineEvent) :
    (newSQLiteStore.appendBatch entries).Query parse opts answer ↔
      answer = (Paging.page opts.offset.toNat opts.pageLimit
        ((newest opts entries).map Row.event)).filter
          (postFilter opts (presetFilter opts.filterPreset)) := by
  have rows : (newSQLiteStore.appendBatch entries).table.rows = entries := by
    have fresh := append_fresh distinct newSQLiteStore.table (by simp [newSQLiteStore])
    simpa [Store.appendBatch, newSQLiteStore] using fresh
  have filter : (queryFilter (newSQLiteStore.appendBatch entries).filterCache opts).1 =
      presetFilter opts.filterPreset := by
    apply (query_filter _ opts).1
    intro name cf cached
    simp [Store.appendBatch, newSQLiteStore] at cached
  have arranged := newest_arranged kept increasing
  have scanned : (Paging.page opts.offset.toNat opts.pageLimit (newest opts entries)).map
      (scanEvent parse) = Paging.page opts.offset.toNat opts.pageLimit
        ((newest opts entries).map Row.event) := by
    rw [Paging.page, Paging.page, ← map_drop, ← map_take]
    apply map_congr_left
    intro r member
    apply stored
    have inside := mem_of_mem_drop (mem_of_mem_take member)
    rw [newest, mem_reverse] at inside
    exact mem_of_mem_filter inside
  unfold Store.Query
  rw [rows, filter]
  constructor
  · rintro ⟨ordered, arranged', same⟩
    have unique : ordered = newest opts entries := by
      apply arranged_unique _ arranged' arranged
      intro x present y present' first second
      exact newest_strict stored increasing (mem_of_mem_filter present)
        (mem_of_mem_filter present') first second
    rw [same, unique, scanned]
  · intro same
    exact ⟨newest opts entries, arranged, by rw [same, scanned]⟩

theorem memory_answer (positive : 1 ≤ size) (few : (entries.length : Int) < size)
    (named : ∀ r ∈ entries, r.id ≠ "") (opts : QueryOptions) :
    (((MemoryStore.newMemoryStore size).appendBatch (entries.map Row.event)).query opts).1 =
      Paging.page opts.offset.toNat opts.pageLimit (((newest opts entries).map Row.event).filter
        (postFilter opts (presetFilter opts.filterPreset))) := by
  obtain ⟨empty, room⟩ := MemoryStore.refines_new positive
  have refines := MemoryStore.refines_batch empty (entries.map Row.event)
  rw [MemoryStore.query_eq refines, MemoryStore.batch_size, room, append_nil,
    take_of_length_le (by rw [length_reverse, length_map]; omega)]
  congr 1
  rw [newest, map_reverse, filter_reverse, filter_reverse, filter_map,
    filter_map, filter_filter]
  congr 2
  apply filter_congr
  intro r present
  have some : (r.event.id != "") = true := bne_iff_ne.mpr (named r present)
  simp only [Function.comp_apply, MemoryStore.admits, matches_filters_eq, some, Bool.true_and,
    Bool.and_comm]

/-- Where the texts of the timestamps keep their order, the stores agree on a query if and only if the
   filters applied after the page was cut leave the page as it is. -/
theorem stores_agree_iff (few : (entries.length : Int) < size)
    (distinct : (entries.map Row.id).Nodup) (named : ∀ r ∈ entries, r.id ≠ "")
    (increasing : entries.Pairwise fun x y => x.event.timestamp.ns < y.event.timestamp.ns)
    (stored : ∀ r ∈ entries, scanEvent parse r = r.event) (opts : QueryOptions)
    (limited : 1 ≤ opts.limit) (kept : TimesKept opts entries) :
    StoresAgree size entries parse opts ↔
      Paging.KeepsPage (postFilter opts (presetFilter opts.filterPreset)) opts.offset.toNat
        opts.pageLimit ((newest opts entries).map Row.event) := by
  have room : 0 < opts.pageLimit := by
    unfold QueryOptions.pageLimit
    split
    · decide
    · split <;> omega
  have sublist : (newest opts entries).reverse.Sublist entries := by
    rw [newest, List.reverse_reverse]
    exact List.filter_sublist
  have once : ((newest opts entries).map Row.event).Nodup := by
    apply List.Nodup.of_map TimelineEvent.id
    rw [List.map_map, ← List.nodup_reverse, ← List.map_reverse]
    exact distinct.sublist (sublist.map _)
  rw [← Paging.page_filter_iff once room, StoresAgree]
  simp only [sqlite_answer stored distinct increasing kept, memory_answer (by omega : 1 ≤ size) few named]
  constructor
  · intro agree
    exact (agree _).mp rfl
  · intro same answer
    rw [same]

end Agreement

def webRow (id kind : String) (second : Int) : Row where
  event := { MemoryStore.zeroEvent with
    id := id, kind := kind, name := "web", timestamp := ⟨second * 1000000000, 0⟩ }
  createdAt := 0

/-- A deployment's event at noon of January 1, 2024, and its pod's one second later. -/
def webRows : List Row := [webRow "a" "Deployment" 63839707200, webRow "b" "Pod" 63839707201]

def webParse (text : List Char) : Time :=
  if text = (webRow "a" "Deployment" 63839707200).timestamp then ⟨63839707200000000000, 0⟩
  else ⟨63839707201000000000, 0⟩

def firstOnly (limit : Int) : QueryOptions := { defaultQueryOptions with limit := limit }

theorem web_kept (limit : Int) : TimesKept (firstOnly limit) webRows := by
  constructor
  · intro given
    exact absurd given (by simp [firstOnly, defaultQueryOptions, Time.isZero])
  · intro given
    exact absurd given (by simp [firstOnly, defaultQueryOptions, Time.isZero])
  · have texts : ∀ x ∈ webRows, ∀ y ∈ webRows, x.event.timestamp.ns < y.event.timestamp.ns →
        lexCompare x.timestamp y.timestamp = cmp x.event.timestamp.ns y.event.timestamp.ns := by
      decide +kernel
    intro x present y present' _ _ older
    exact (keeps_order_iff _ _).mp (texts x present y present' older)

theorem web_stored : ∀ r ∈ webRows, scanEvent webParse r = r.event := by decide +kernel

/-- With room for both rows the pod is dropped from the answer and the deployment stays. -/
theorem two_rows_agree : StoresAgree 10 webRows webParse (firstOnly 2) :=
  (stores_agree_iff (by decide) (by decide) (by decide) (by decide) web_stored (firstOnly 2)
    (by decide) (web_kept 2)).mpr (Or.inr ⟨by decide, Or.inr (by decide)⟩)

/-- With room for one the page holds the pod alone, and SQLite answers nothing. -/
theorem managed_row_fills_page : ¬ StoresAgree 10 webRows webParse (firstOnly 1) ∧
    (newSQLiteStore.appendBatch webRows).Query webParse (firstOnly 1) [] ∧
    (((MemoryStore.newMemoryStore 10).appendBatch (webRows.map Row.event)).query
      (firstOnly 1)).1 = [(webRow "a" "Deployment" 63839707200).event] := by
  have empty : (newSQLiteStore.appendBatch webRows).Query webParse (firstOnly 1) [] := by
    rw [sqlite_answer web_stored (by decide) (by decide) (web_kept 1)]
    decide
  have memory : (((MemoryStore.newMemoryStore 10).appendBatch (webRows.map Row.event)).query
      (firstOnly 1)).1 = [(webRow "a" "Deployment" 63839707200).event] := by
    rw [memory_answer (by decide) (by decide) (by decide)]
    decide
  refine ⟨?_, empty, memory⟩
  intro agree
  have same := (agree []).mp empty
  rw [memory] at same
  exact absurd same (List.cons_ne_nil _ _).symm

end StoreAgreement
