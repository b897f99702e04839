import Radar.Base.Paging
import Radar.Base.RingLog
import Radar.Timeline.Filter

/- pkg/timeline/memory_store.go: the in-memory ring of events. -/
namespace MemoryStore
open Timeline TimelineFilter
variable {log : List TimelineEvent}

structure Store where
  records : List TimelineEvent
  maxSize : Nat
  head : Nat
  count : Nat
  filterCache : FilterCache

variable {m : Store}

/-- The zero record a slot holds before its first event. -/
def zeroEvent : TimelineEvent :=
  ⟨"", ⟨0, 0⟩, .other "" (by decide), "", "", "", "", "", "", .other "" (by decide), "", "", "",
    none, [], 0, ""⟩

def newMemoryStore (maxSize : Int) : Store := let size := if maxSize ≤ 0 then 1000 else maxSize.toNat
  ⟨List.replicate size zeroEvent, size, 0, 0, fun _ => none⟩

def Store.append (m : Store) (event : TimelineEvent) : Store := { m with
    records := m.records.set m.head event
    head := (m.head + 1) % m.maxSize
    count := if m.count < m.maxSize then m.count + 1 else m.count }

def Store.appendBatch (m : Store) (events : List TimelineEvent) : Store := events.foldl Store.append m

/-- The record a loop reads at its i-th step, counted back from the last write. -/
def Store.recordAt (m : Store) (i : Nat) : TimelineEvent :=
  m.records.getD ((m.head + m.maxSize - 1 - i) % m.maxSize) zeroEvent

/-- The records in the order the loops of Query and GetEvent read them. -/
def Store.backwards (m : Store) : List TimelineEvent := (List.range m.count).map m.recordAt

def matchesFilters (e : TimelineEvent) (opts : QueryOptions) (cf : Option CompiledFilter) : Bool :=
  (match cf with | none => true | some cf => cf.matches e) &&
  (opts.clusterContext == "" || e.clusterContext == opts.clusterContext) &&
  (opts.since.isZero || !e.timestamp.before opts.since) &&
  (opts.until_.isZero || !e.timestamp.after opts.until_) &&
  (opts.namespaces.isEmpty || opts.namespaces.contains e.namespace_) &&
  (opts.kinds.isEmpty || opts.kinds.contains e.kind) &&
  (opts.names.isEmpty || opts.names.contains e.name) &&
  (opts.sources.isEmpty || opts.sources.contains e.source) &&
  (opts.eventTypes.isEmpty || opts.eventTypes.contains e.eventType) &&
  !(opts.excludeDeleted && e.eventType == .delete) &&
  !(e.isManaged && !opts.includeManaged &&
    (match cf with | none => true | some cf => !cf.preset.includeManaged)) &&
  !(!opts.includeK8sEvents && e.source == .k8sEvent)

/-- The loop of Query: empty records and filtered ones are passed over, then the offset is used up,
   then results are collected until the limit. -/
def queryLoop (opts : QueryOptions) (cf : Option CompiledFilter) (limit : Nat) :
    List TimelineEvent → List TimelineEvent → Nat → List TimelineEvent
  | [], results, _ => results
  | event :: rest, results, skipped =>
    if results.length < limit then
      if event.id = "" then queryLoop opts cf limit rest results skipped
      else if ¬ matchesFilters event opts cf then queryLoop opts cf limit rest results skipped
      else if 0 < opts.offset ∧ (skipped : Int) < opts.offset then
        queryLoop opts cf limit rest results (skipped + 1)
      else queryLoop opts cf limit rest (results ++ [event]) skipped
    else results

def Store.query (m : Store) (opts : QueryOptions) : List TimelineEvent × Store :=
  let filter := queryFilter m.filterCache opts
  (queryLoop opts filter.1 opts.pageLimit m.backwards [] 0, { m with filterCache := filter.2 })

def Store.getEvent (m : Store) (id : String) : Option TimelineEvent := m.backwards.find? fun e => e.id == id

/-- The calls a store serves between two of which it may be observed. -/
inductive Call where
  | append (event : TimelineEvent)
  | appendBatch (events : List TimelineEvent)
  | query (opts : QueryOptions)

def Store.serve (m : Store) : Call → Store
  | .append event => m.append event
  | .appendBatch events => m.appendBatch events
  | .query opts => (m.query opts).2

/-- The events of a list of calls, in the order they were appended. -/
def appended (calls : List Call) : List TimelineEvent := calls.flatMap fun
    | .append event => [event]
    | .appendBatch events => events
    | .query _ => []

/-- What the ring stands for: the newest events of everything appended, the newest first. -/
def lastAppended (maxSize : Nat) (calls : List Call) : List TimelineEvent :=
  (appended calls).reverse.take maxSize

def Store.ring (m : Store) : RingLog.Ring TimelineEvent := ⟨m.records, m.head, m.count⟩

/-- The store holds the front of the log, and its filter cache what its names compile to. -/
structure Refines (m : Store) (log : List TimelineEvent) : Prop where
  size : m.maxSize = m.records.length
  holds : RingLog.Holds m.ring log
  cache : CacheCompiled m.filterCache

theorem refines_new {maxSize : Int} (positive : 1 ≤ maxSize) :
    Refines (newMemoryStore maxSize) [] ∧ (newMemoryStore maxSize).maxSize = maxSize.toNat := by
  have given : ¬ maxSize ≤ 0 := by omega
  constructor
  · constructor
    · simp [newMemoryStore]
    · apply RingLog.holds_empty
      simp only [newMemoryStore, given, if_false, List.length_replicate]
      omega
    · intro name cf cached
      simp [newMemoryStore] at cached
  · simp [newMemoryStore, given]

theorem refines_append (refines : Refines m log)
    (event : TimelineEvent) : Refines (m.append event) (event :: log) := by
  have pushed : (m.append event).ring = m.ring.push event := by
    simp only [Store.ring, Store.append, RingLog.Ring.push, refines.size]
    rfl
  constructor
  · simpa [Store.append] using refines.size
  · rw [pushed]
    exact RingLog.holds_push refines.holds event
  · exact refines.cache

theorem refines_batch (refines : Refines m log)
    (events : List TimelineEvent) : Refines (m.appendBatch events) (events.reverse ++ log) := by
  induction events generalizing m log with
  | nil => exact refines
  | cons event rest ih =>
    rw [List.reverse_cons, List.append_assoc, List.singleton_append]
    exact ih (refines_append refines event)

theorem refines_query (refines : Refines m log)
    (opts : QueryOptions) : Refines (m.query opts).2 log :=
  ⟨refines.size, refines.holds, (query_filter refines.cache opts).2⟩

theorem batch_size (events : List TimelineEvent) (m : Store) :
    (m.appendBatch events).maxSize = m.maxSize := by
  induction events generalizing m with
  | nil => rfl
  | cons event rest ih => exact ih (m.append event)

theorem serve_size (m : Store) (call : Call) : (m.serve call).maxSize = m.maxSize := by
  cases call with
  | append event => rfl
  | appendBatch events => exact batch_size events m
  | query opts => rfl

theorem refines_calls (refines : Refines m log)
    (calls : List Call) : Refines (calls.foldl Store.serve m) ((appended calls).reverse ++ log) ∧
      (calls.foldl Store.serve m).maxSize = m.maxSize := by
  induction calls generalizing m log with
  | nil => exact ⟨refines, rfl⟩
  | cons call rest ih =>
    have grown : Refines (m.serve call) ((appended [call]).reverse ++ log) := by
      cases call with
      | append event => exact refines_append refines event
      | appendBatch events => simpa [appended, Store.serve] using refines_batch refines events
      | query opts => exact refines_query refines opts
    have served := ih grown
    have split : (appended (call :: rest)).reverse ++ log =
        (appended rest).reverse ++ ((appended [call]).reverse ++ log) := by
      simp [appended]
    rw [List.foldl_cons, split]
    exact ⟨served.1, served.2.trans (serve_size m call)⟩

theorem backwards_eq (refines : Refines m log) : m.backwards = log.take m.maxSize := by
  have recent := RingLog.recent_eq refines.holds zeroEvent
  have same : m.backwards = m.ring.recent zeroEvent := by
    unfold Store.backwards RingLog.Ring.recent Store.recordAt RingLog.back
    simp only [Store.ring, refines.size]
  rw [same, recent, refines.size]
  rfl

/-- What the loop of Query collects. -/
def admits (opts : QueryOptions) (cf : Option CompiledFilter) (e : TimelineEvent) : Bool :=
  e.id != "" && matchesFilters e opts cf

theorem query_loop_eq (opts : QueryOptions) (cf : Option CompiledFilter) (limit : Nat)
    (events results : List TimelineEvent) (skipped : Nat) :
    queryLoop opts cf limit events results skipped =
      Paging.collect (admits opts cf) opts.offset.toNat limit events results skipped := by
  induction events generalizing results skipped with
  | nil => rfl
  | cons event rest ih =>
    have due : (0 < opts.offset ∧ (skipped : Int) < opts.offset) ↔ skipped < opts.offset.toNat := by omega
    by_cases blank : event.id = ""
    · simp [queryLoop, Paging.collect, admits, blank, ih]
    · by_cases matched : matchesFilters event opts cf = true
      · simp only [queryLoop, Paging.collect, admits, blank, matched, due, ih, if_false,
          not_true_eq_false, bne_iff_ne, ne_eq, not_false_eq_true, Bool.and_true]
      · simp [queryLoop, Paging.collect, admits, blank, matched, ih]

theorem query_eq (refines : Refines m log) (opts : QueryOptions) : (m.query opts).1 =
      Paging.page opts.offset.toNat opts.pageLimit
        ((log.take m.maxSize).filter (admits opts (presetFilter opts.filterPreset))) := by
  simp only [Store.query, query_loop_eq, Paging.collect_page, backwards_eq refines,
    (query_filter refines.cache opts).1]

/-- After any calls, Query gives the page of the matching events among the last ones appended, and
   GetEvent the newest of these with the identifier. -/
theorem memory_store_refines_log (maxSize : Int) (positive : 1 ≤ maxSize) (calls : List Call) :
    (∀ opts, ((calls.foldl Store.serve (newMemoryStore maxSize)).query opts).1 =
      (((lastAppended maxSize.toNat calls).filter fun e =>
        e.id != "" && matchesFilters e opts (presetFilter opts.filterPreset)).drop
          (max opts.offset 0).toNat).take
        (if opts.limit ≤ 0 then 200 else min opts.limit 10000).toNat) ∧
    ∀ id, (calls.foldl Store.serve (newMemoryStore maxSize)).getEvent id =
      (lastAppended maxSize.toNat calls).find? fun e => e.id == id := by
  obtain ⟨empty, size⟩ := refines_new positive
  obtain ⟨refines, kept⟩ := refines_calls empty calls
  rw [List.append_nil] at refines
  constructor
  · intro opts
    have skip : (max opts.offset 0).toNat = opts.offset.toNat := by omega
    have limit : (if opts.limit ≤ 0 then 200 else min opts.limit 10000).toNat = opts.pageLimit := by
      unfold QueryOptions.pageLimit
      split
      · rfl
      · split <;> omega
    rw [query_eq refines opts, kept, size, skip, limit]
    rfl
  · intro id
    rw [Store.getEvent, backwards_eq refines, kept, size]
    rfl

def webEvent (id : String) (at_ : Int) : TimelineEvent :=
  { zeroEvent with id := id, timestamp := ⟨at_, 0⟩, kind := "Deployment", name := "web" }

/-- A ring of two after three events: the oldest is gone. -/
theorem two_newest_of_three :
    ((([.append (webEvent "a" 1), .appendBatch [webEvent "b" 2, webEvent "c" 3]] : List Call).foldl
      Store.serve (newMemoryStore 2)).query defaultQueryOptions).1 = [webEvent "c" 3, webEvent "b" 2] := by
  rw [(memory_store_refines_log 2 (by decide) _).1 defaultQueryOptions]
  decide

end MemoryStore
