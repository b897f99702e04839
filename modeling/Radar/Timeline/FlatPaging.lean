import Radar.Timeline.EventGroups
import Radar.Timeline.StoreAgreement

/- QueryGrouped of the two event stores, and its flat pages against those of Query. -/
namespace FlatPaging
open Timeline TimelineFilter EventGroups List

/-- The answer without grouping. A slice up to a negative limit panics. -/
def flatResponse (limit : Int) (events : List TimelineEvent) : Option TimelineResponse :=
  let sliced := if limit < (events.length : Int) then
      if limit < 0 then none else some (events.take limit.toNat)
    else some events
  sliced.map fun events => ⟨[], events, events.length, 0, decide ((events.length : Int) = limit)⟩

/-- What a store makes of the events it has fetched. -/
def Responds (mode : GroupingMode) (limit : Int) (events : List TimelineEvent)
    (answer : Option TimelineResponse) : Prop :=
  if mode = .none then answer = flatResponse limit events
  else ∃ groups, GroupEvents mode events groups ∧ answer = some (groupedResponse limit events groups)

/-- Ten times the limit, in an int of 64 bits. -/
def tenfold (limit : Int) : Int := (limit * 10).bmod (2 ^ 64)

section Memory
open MemoryStore

def memoryQuery (opts : QueryOptions) : QueryOptions := { opts with limit := tenfold opts.limit }

def MemoryQueryGrouped (m : Store) (opts : QueryOptions) (mode : GroupingMode)
    (answer : Option TimelineResponse) : Prop :=
  Responds mode opts.limit (m.query (memoryQuery opts)).1 answer

/-- The events a query's filters and offset leave, the newest first. -/
def memoryMatching (m : Store) (opts : QueryOptions) : List TimelineEvent :=
  (m.backwards.filter (admits opts (queryFilter m.filterCache opts).1)).drop opts.offset.toNat

theorem memory_page (m : Store) (opts : QueryOptions) :
    (m.query opts).1 = (memoryMatching m opts).take opts.pageLimit := by
  simp only [Store.query, query_loop_eq, Paging.collect_page]
  rfl

end Memory

section Sqlite
open SqliteStore

def sqliteQuery (opts : QueryOptions) : QueryOptions := { opts with limit := min (tenfold opts.limit) 5000 }

/-- An order in which SQLite reads the rows of a statement. Its limit plays no part in that. -/
structure Reading (s : Store) (opts : QueryOptions) where
  rows : List Row
  arranged : Arrange.Arranged newestFirst (s.table.rows.filter (selected opts)) rows

/-- The rows behind the offset, as events. -/
def Reading.events {s : Store} {opts : QueryOptions} (reading : Reading s opts)
    (parse : List Char → Time) : List TimelineEvent :=
  (reading.rows.drop opts.offset.toNat).map (scanEvent parse)

def postFilters (s : Store) (opts : QueryOptions) (e : TimelineEvent) : Bool :=
  postFilter opts (queryFilter s.filterCache opts).1 e

/-- Query on the rows in the order they are read. -/
def Reading.query {s : Store} {opts : QueryOptions} (reading : Reading s opts)
    (parse : List Char → Time) (limit : Nat) : List TimelineEvent :=
  ((reading.events parse).take limit).filter (postFilters s opts)

def SqliteQueryGrouped (s : Store) {opts : QueryOptions} (reading : Reading s opts)
    (parse : List Char → Time) (mode : GroupingMode) (answer : Option TimelineResponse) : Prop :=
  Responds mode opts.limit (reading.query parse (sqliteQuery opts).pageLimit) answer

end Sqlite

section Exact
variable {α : Type}

/-- A flat response lists what Query returns, and says there is more when there is. -/
def Exact (responds : Option TimelineResponse → Prop) (asked matching : List TimelineEvent) : Prop :=
  ∃ response, (∀ answer, responds answer ↔ answer = some response) ∧ response.ungrouped = asked ∧
    (response.hasMore = true ↔ asked.length < matching.length)

/-- The first events of a list all pass where one behind them does, and only there. -/
def Filled (passes : TimelineEvent → Bool) (limit : Nat) (events : List TimelineEvent) : Prop :=
  ((∀ e ∈ events.take limit, passes e = true) ∧ limit ≤ events.length) ↔
    ∃ e ∈ events.drop limit, passes e = true

/-- Where a page of some limit, cut from more fetched events, is exact. -/
def PageExact (passes : TimelineEvent → Bool) (limit : Int) (fetched : Nat)
    (events : List TimelineEvent) : Prop :=
  if limit < 0 then False
  else if limit = 0 then
    (∀ e ∈ events.take fetched, passes e = false) ∧ ∃ e ∈ events.drop fetched, passes e = true
  else if limit ≤ fetched then Filled passes limit.toNat events
  else ∀ e ∈ events.drop fetched, passes e = false

variable {passes : TimelineEvent → Bool} {events : List TimelineEvent} {limit : Int}

theorem none_passes_iff (passes : TimelineEvent → Bool) (events : List TimelineEvent) (n : Nat) :
    (∀ e ∈ events.drop n, passes e = false) ↔
      ((events.take n).filter passes).length = (events.filter passes).length := by
  have split := congrArg (filter passes) (take_append_drop n events)
  rw [filter_append] at split
  have lengths := congrArg length split
  rw [length_append] at lengths
  constructor
  · intro none
    have empty : (events.drop n).filter passes = [] :=
      filter_eq_nil_iff.mpr fun e member => by simp [none e member]
    rw [empty] at lengths
    simpa using lengths
  · intro same
    have empty : (events.drop n).filter passes = [] := length_eq_zero_iff.mp (by omega)
    simpa using filter_eq_nil_iff.mp empty

/-- A page is full when nothing of it was dropped. -/
theorem full_iff (limit : Nat) : ((events.take limit).filter passes).length = limit ↔
    (∀ e ∈ events.take limit, passes e = true) ∧ limit ≤ events.length := by
  have fewer := length_filter_le passes (events.take limit)
  have length : (events.take limit).length = min limit events.length := length_take
  rw [← length_filter_eq_length_iff]
  constructor
  · intro same
    omega
  · rintro ⟨all, long⟩
    omega

theorem filled_iff (limit : Nat) : Filled passes limit events ↔
    (((events.take limit).filter passes).length = limit ↔
      ((events.take limit).filter passes).length < (events.filter passes).length) := by
  have within : ((events.take limit).filter passes).length ≤ (events.filter passes).length :=
    ((take_sublist limit events).filter passes).length_le
  have more : ((events.take limit).filter passes).length < (events.filter passes).length ↔
      ∃ e ∈ events.drop limit, passes e = true := by
    have none := none_passes_iff passes events limit
    rw [← not_iff_not, Nat.not_lt]
    push Not
    simp only [Bool.not_eq_true]
    rw [none]
    omega
  rw [Filled, full_iff, more]

/-- A limit that is not negative cuts the fetched events. -/
theorem exact_cut {fetched asked matching : List TimelineEvent}
    (positive : 0 ≤ limit) : Exact (Responds .none limit fetched) asked matching ↔
      fetched.take limit.toNat = asked ∧
        (((fetched.take limit.toNat).length : Int) = limit ↔ asked.length < matching.length) := by
  have given : flatResponse limit fetched = some ⟨[], fetched.take limit.toNat,
      (fetched.take limit.toNat).length, 0,
      decide (((fetched.take limit.toNat).length : Int) = limit)⟩ := by
    unfold flatResponse
    by_cases beyond : limit < (fetched.length : Int)
    · rw [if_pos beyond, if_neg (by omega), Option.map_some]
    · have all : fetched.take limit.toNat = fetched := take_of_length_le (by omega)
      rw [if_neg beyond, Option.map_some, all]
  unfold Exact Responds
  simp only [if_true, given]
  constructor
  · rintro ⟨other, responds, listed, more⟩
    obtain rfl := Option.some.inj ((responds _).mp rfl)
    exact ⟨listed, decide_eq_true_iff.symm.trans more⟩
  · rintro ⟨listed, more⟩
    exact ⟨_, fun _ => Iff.rfl, listed, decide_eq_true_iff.trans more⟩

/-- The slice panics. -/
theorem negative_fails (negative : limit < 0) (fetched asked matching : List TimelineEvent) :
    ¬ Exact (Responds .none limit fetched) asked matching := by
  have panics : flatResponse limit fetched = none := by
    rw [flatResponse, if_pos (by omega), if_pos negative, Option.map_none]
  rintro ⟨response, responds, _⟩
  have answered : none = some response := (responds none).mp (by rw [Responds, if_pos rfl, panics])
  cases answered

theorem take_within {n m : Nat} (le : n ≤ m) :
    (events.take n).filter passes <+: (events.take m).filter passes :=
  (take_prefix_take_left le).filter passes

theorem filter_within (passes : TimelineEvent → Bool) (events : List TimelineEvent) (n : Nat) :
    ((events.take n).filter passes).length ≤ (events.filter passes).length :=
  ((take_sublist n events).filter passes).length_le

/-- Nothing is listed for the limit zero, and more is promised. -/
theorem zero_exact_iff (n : Nat) :
    Exact (Responds .none 0 ((events.take n).filter passes)) ((events.take n).filter passes)
      (events.filter passes) ↔
        (∀ e ∈ events.take n, passes e = false) ∧ ∃ e ∈ events.drop n, passes e = true := by
  have empty : (∀ e ∈ events.take n, passes e = false) ↔ [] = (events.take n).filter passes := by
    rw [eq_comm, filter_eq_nil_iff]
    simp
  have more : (∃ e ∈ events.drop n, passes e = true) ↔
      ((events.take n).filter passes).length < (events.filter passes).length := by
    have none := none_passes_iff passes events n
    have below := filter_within passes events n
    rw [← not_iff_not]
    push Not
    simp only [Bool.not_eq_true]
    rw [none]
    omega
  rw [exact_cut le_rfl, empty, more]
  simp

/-- A page of which more was fetched than it holds. -/
theorem inner_exact_iff {limit fetched : Nat} (inside : limit ≤ fetched) :
    Exact (Responds .none limit ((events.take fetched).filter passes))
      ((events.take limit).filter passes) (events.filter passes) ↔ Filled passes limit events := by
  obtain ⟨more, split⟩ := (take_within inside :
    (events.take limit).filter passes <+: (events.take fetched).filter passes)
  have short := (length_filter_le passes (events.take limit)).trans
    (length_take_le limit events)
  have below := filter_within passes events fetched
  rw [exact_cut (by omega), filled_iff, Int.toNat_natCast, Int.natCast_inj]
  constructor
  · rintro ⟨listed, word⟩
    rw [listed] at word
    exact word
  · intro filled
    have listed : ((events.take fetched).filter passes).take limit = (events.take limit).filter passes := by
      rw [← split]
      by_cases full : ((events.take limit).filter passes).length = limit
      · exact take_left' full
      · have none : more = [] := by
          rw [← split, length_append] at below
          apply length_eq_zero_iff.mp
          omega
        rw [none, append_nil, take_of_length_le short]
    rw [listed]
    exact ⟨rfl, filled⟩

/-- A page of which less was fetched than it may hold. -/
theorem outer_exact_iff {fetched asked : Nat} (beyond : fetched < limit) (less : fetched ≤ asked) :
    Exact (Responds .none limit ((events.take fetched).filter passes))
      ((events.take asked).filter passes) (events.filter passes) ↔
        ∀ e ∈ events.drop fetched, passes e = false := by
  have short := (length_filter_le passes (events.take fetched)).trans
    (length_take_le fetched events)
  have inside := (take_within less :
    (events.take fetched).filter passes <+: (events.take asked).filter passes).sublist
  have below := filter_within passes events asked
  rw [exact_cut (by omega), take_of_length_le (by omega), none_passes_iff]
  constructor
  · rintro ⟨listed, word⟩
    rw [← listed] at word below
    omega
  · intro level
    have same := inside.eq_of_length_le (by omega)
    rw [← same]
    exact ⟨rfl, by omega⟩

/-- A page cut from what was fetched is the one asked for, with the right word about more, exactly under
   the condition on the events. -/
theorem flat_exact_iff {fetched asked : Nat} (zero : limit = 0 → fetched = asked)
    (within : 0 < limit → limit ≤ fetched → limit = asked) (beyond : fetched < limit → fetched ≤ asked)
    (passes : TimelineEvent → Bool) (events : List TimelineEvent) :
    Exact (Responds .none limit ((events.take fetched).filter passes))
      ((events.take asked).filter passes) (events.filter passes) ↔
        PageExact passes limit fetched events := by
  unfold PageExact
  rcases lt_trichotomy limit 0 with negative | rfl | positive
  · rw [if_pos negative]
    exact iff_of_false (negative_fails negative _ _ _) id
  · rw [if_neg (by decide), if_pos rfl, zero rfl]
    exact zero_exact_iff asked
  · rw [if_neg (by omega), if_neg (by omega)]
    by_cases inside : limit ≤ fetched
    · obtain rfl := within positive inside
      rw [if_pos inside, Int.toNat_natCast]
      exact inner_exact_iff (by omega)
    · rw [if_neg inside]
      exact outer_exact_iff (by omega) (beyond (by omega))

end Exact

section Stores
variable {opts : QueryOptions}

/-- In memory all filters come before the limit. -/
def MemoryExact (m : MemoryStore.Store) (opts : QueryOptions) : Prop :=
  Exact (MemoryQueryGrouped m opts .none) (m.query opts).1 (memoryMatching m opts)

def SqliteExact (s : SqliteStore.Store) {opts : QueryOptions} (reading : Reading s opts)
    (parse : List Char → Time) : Prop :=
  Exact (SqliteQueryGrouped s reading parse .none) (reading.query parse opts.pageLimit)
    ((reading.events parse).filter (postFilters s opts))

/-- So many events match: not the limit, or all of them were fetched. -/
def MemoryExhausted (m : MemoryStore.Store) (opts : QueryOptions) : Prop := 0 < opts.limit ∧
    if opts.limit ≤ 10000 then ((memoryMatching m opts).length : Int) ≠ opts.limit
    else (memoryMatching m opts).length ≤ (memoryQuery opts).pageLimit

theorem page_limit_le (opts : QueryOptions) : opts.pageLimit ≤ 10000 := by
  unfold QueryOptions.pageLimit
  split
  next => omega
  next => split <;> omega

theorem page_limit_inside (positive : 0 < opts.limit)
    (small : opts.limit ≤ 10000) : opts.limit = opts.pageLimit := by
  unfold QueryOptions.pageLimit
  rw [if_neg (by omega), if_neg (by omega)]
  omega

theorem page_limit_over (large : 10000 < opts.limit) : opts.pageLimit = 10000 := by
  unfold QueryOptions.pageLimit
  rw [if_neg (by omega), if_pos large]

theorem page_exact_iff (opts : QueryOptions) {fetched : Nat} (top : fetched ≤ 10000)
    (zero : opts.limit = 0 → fetched = opts.pageLimit) (passes : TimelineEvent → Bool)
    (events : List TimelineEvent) :
    Exact (Responds .none opts.limit ((events.take fetched).filter passes))
      ((events.take opts.pageLimit).filter passes) (events.filter passes) ↔
        PageExact passes opts.limit fetched events := by
  apply flat_exact_iff zero
  · intro positive inside
    exact page_limit_inside positive (by omega)
  · intro beyond
    by_cases large : 10000 < opts.limit
    · rw [page_limit_over large]
      exact top
    · have same := (page_limit_inside (by omega) (by omega) : opts.limit = opts.pageLimit)
      omega

/-- Ten times a page's limit is never less than the page. -/
theorem tenfold_page (positive : 0 < opts.limit) (small : opts.limit ≤ 10000) :
    opts.limit ≤ (memoryQuery opts).pageLimit := by
  have ten : tenfold opts.limit = opts.limit * 10 := by
    unfold tenfold
    rw [Int.bmod_eq_of_le] <;> omega
  simp only [QueryOptions.pageLimit, memoryQuery, ten]
  rw [if_neg (by omega)]
  split <;> omega

theorem filled_all (limit : Nat) (events : List TimelineEvent) :
    Filled (fun _ => true) limit events ↔ events.length ≠ limit := by
  have more : (∃ e ∈ events.drop limit, (fun _ : TimelineEvent => true) e = true) ↔
      limit < events.length := by
    rw [← Nat.sub_pos_iff_lt, ← length_drop, length_pos_iff_exists_mem]
    simp
  rw [Filled, more]
  simp only [implies_true, true_and]
  omega

theorem page_all_iff (m : MemoryStore.Store) (opts : QueryOptions) :
    PageExact (fun _ => true) opts.limit (memoryQuery opts).pageLimit (memoryMatching m opts) ↔
      MemoryExhausted m opts := by
  have top := page_limit_le (memoryQuery opts)
  unfold PageExact MemoryExhausted
  rcases lt_trichotomy opts.limit 0 with negative | zero | positive
  · rw [if_pos negative]
    exact iff_of_false id fun both => by omega
  · rw [if_neg (by omega), if_pos zero]
    refine iff_of_false ?_ fun both => by omega
    rintro ⟨none, e, member, _⟩
    have page : (memoryQuery opts).pageLimit = 200 := by
      simp [QueryOptions.pageLimit, memoryQuery, tenfold, zero]
    rw [page] at none member
    cases events : memoryMatching m opts with
    | nil => simp [events] at member
    | cons first rest => exact Bool.noConfusion (none first (by simp [events]))
  · rw [if_neg (by omega), if_neg (by omega)]
    by_cases small : opts.limit ≤ 10000
    · rw [if_pos (tenfold_page positive small), if_pos small, filled_all]
      constructor
      · intro differ
        exact ⟨positive, by omega⟩
      · rintro ⟨_, differ⟩
        omega
    · rw [if_neg (by omega), if_neg small]
      have empty : (∀ e ∈ (memoryMatching m opts).drop (memoryQuery opts).pageLimit,
          (fun _ : TimelineEvent => true) e = false) ↔
            (memoryMatching m opts).length ≤ (memoryQuery opts).pageLimit := by
        rw [← drop_eq_nil_iff, eq_nil_iff_forall_not_mem]
        simp
      rw [empty]
      exact (and_iff_right positive).symm

theorem memory_exact_iff (m : MemoryStore.Store) (opts : QueryOptions) :
    MemoryExact m opts ↔ MemoryExhausted m opts := by
  have same : memoryMatching m (memoryQuery opts) = memoryMatching m opts := rfl
  have zero : opts.limit = 0 → (memoryQuery opts).pageLimit = opts.pageLimit := by
    intro zero
    simp [QueryOptions.pageLimit, memoryQuery, tenfold, zero]
  have law := page_exact_iff opts (page_limit_le (memoryQuery opts)) zero (fun _ => true)
    (memoryMatching m opts)
  rw [filter_true, filter_true, filter_true, page_all_iff] at law
  unfold MemoryExact MemoryQueryGrouped
  rw [memory_page, memory_page, same]
  exact law

theorem sqlite_exact_iff (s : SqliteStore.Store) (reading : Reading s opts)
    (parse : List Char → Time) : SqliteExact s reading parse ↔
      PageExact (postFilters s opts) opts.limit (sqliteQuery opts).pageLimit
        (reading.events parse) := by
  apply page_exact_iff opts (page_limit_le (sqliteQuery opts))
  intro zero
  simp [QueryOptions.pageLimit, sqliteQuery, tenfold, zero]

/-- What both stores answer without grouping is Query's page with the right word about more under
   exactly these conditions on the limit and the events. -/
theorem flat_paging_exact_iff (opts : QueryOptions) (m : MemoryStore.Store) (s : SqliteStore.Store)
    (reading : Reading s opts) (parse : List Char → Time) :
    (MemoryExact m opts ↔ MemoryExhausted m opts) ∧ (SqliteExact s reading parse ↔
        PageExact (postFilters s opts) opts.limit (sqliteQuery opts).pageLimit
          (reading.events parse)) :=
  ⟨memory_exact_iff m opts, sqlite_exact_iff s reading parse⟩

end Stores

section Inputs
open StoreAgreement

def oneEvent : MemoryStore.Store := (MemoryStore.newMemoryStore 5).append (MemoryStore.webEvent "a" 1)

def webTable : SqliteStore.Store := ⟨⟨webRows, by decide⟩, fun _ => none⟩

def webReading : Reading webTable (firstOnly 1) :=
  ⟨newest (firstOnly 1) webRows, newest_arranged (web_kept 1) (by decide)⟩

/-- A negative limit panics, a full page promises more, and SQLite fills a page beyond Query's. -/
theorem pages_inexact : ¬ MemoryExact oneEvent (firstOnly (-1)) ∧ ¬ MemoryExact oneEvent (firstOnly 0) ∧
      ¬ MemoryExact oneEvent (firstOnly 1) ∧ ¬ SqliteExact webTable webReading webParse := by
  rw [memory_exact_iff, memory_exact_iff, memory_exact_iff, sqlite_exact_iff]
  refine ⟨?_, ?_, ?_, ?_⟩
  · unfold MemoryExhausted
    decide
  · unfold MemoryExhausted
    decide
  · unfold MemoryExhausted
    decide
  · unfold PageExact Filled
    decide +kernel

end Inputs

end FlatPaging
