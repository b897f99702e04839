import Radar.Base.JsonTree
import Radar.Base.RingLog
import Radar.Base.Runs
import Radar.K8s.QuantityExact

/- pkg/k8score/metrics_history.go: the pod metrics collected again and again, and the latest of them.
   What only CollectionHealth reads is left out. -/
namespace MetricsHistory
open JsonTree QuantityParsers WriteMap List

section Ring

structure MetricsDataPoint where
  timestamp : Int
  cpu : Int
  memory : Int

def metricsHistorySize : Nat := 120

abbrev RingBuffer := RingLog.Ring MetricsDataPoint

def zeroPoint : MetricsDataPoint := ⟨0, 0, 0⟩

def newRingBuffer : RingBuffer := ⟨List.replicate metricsHistorySize zeroPoint, 0, 0⟩

def getAll (rb : RingBuffer) : List MetricsDataPoint := if rb.count = 0 then []
  else if rb.count < rb.slots.length then rb.slots.take rb.count
  else (List.range rb.count).map fun i => rb.slots.getD ((rb.head + i) % rb.slots.length) zeroPoint

end Ring

section Store

structure PodMetricsBuffer where
  namespace_ : String
  name : String
  containers : List (String × RingBuffer)
  lastSeen : Int

abbrev Store := List (String × PodMetricsBuffer)

/-- An object of the metrics API. Its namespace is a DNS label. -/
structure Item where
  namespace_ : String
  name : String
  object : Entries
  plain : '/' ∉ namespace_.toList

def Item.key (item : Item) : String := item.namespace_ ++ "/" ++ item.name

/-- What a list call returns: each pod once. -/
structure Listing where
  items : List Item
  distinct : (items.map Item.key).Nodup

structure Usage where
  cpu : Int
  memory : Int
  deriving DecidableEq

def stringField (entries : Entries) (key : String) : String := match field entries key with
  | some (.string text) => text
  | _ => ""

variable (p : Platform)

/-- The loop body over the containers, up to the write: what it skips gives nothing. -/
def containerReading (c : Value) : Option (String × Usage) := match c with
  | .object container =>
    if stringField container "name" = "" then none
    else match field container "usage" with
      | some (.object usage) =>
        some (stringField container "name",
          ⟨parseCPU p (stringField usage "cpu").toList, parseMemory (stringField usage "memory").toList⟩)
      | _ => none
  | _ => none

def readings (item : Item) : List (String × Usage) := match field item.object "containers" with
  | some (.array elements) => elements.filterMap (containerReading p)
  | _ => []

def addPoint (now : Int) (containers : List (String × RingBuffer)) (reading : String × Usage) :
    List (String × RingBuffer) :=
  set containers (reading.1,
    ((containers.lookup reading.1).getD newRingBuffer).push ⟨now, reading.2.cpu, reading.2.memory⟩)

def newPod (item : Item) (now : Int) : PodMetricsBuffer := ⟨item.namespace_, item.name, [], now⟩

def observe (now : Int) (item : Item) (podBuf : PodMetricsBuffer) : PodMetricsBuffer := { podBuf with
    lastSeen := now
    containers := (readings p item).foldl (addPoint now) podBuf.containers }

def collectItem (now : Int) (podMetrics : Store) (item : Item) : Store := set podMetrics (item.key,
    observe p now item ((podMetrics.lookup item.key).getD (newPod item now)))

/-- Five minutes, in nanoseconds. -/
def staleAfter : Int := 300000000000

def collectPodMetrics (now : Int) (items : List Item) (podMetrics : Store) : Store :=
  (items.foldl (collectItem p now) podMetrics).filter fun entry => ¬ entry.2.lastSeen < now - staleAfter

structure TopPodMetrics where
  namespace_ : String
  name : String
  cpu : Int
  memory : Int
  deriving DecidableEq

def addLast (total : Usage) (entry : String × RingBuffer) : Usage := match (getAll entry.2).getLast? with
  | some last => ⟨wrap64 (total.cpu + last.cpu), wrap64 (total.memory + last.memory)⟩
  | none => total

def podTotal (podBuf : PodMetricsBuffer) : Usage := podBuf.containers.foldl addLast ⟨0, 0⟩

def getAllPodMetricsLatest (podMetrics : Store) : List TopPodMetrics := podMetrics.map fun entry =>
    ⟨entry.2.namespace_, entry.2.name, (podTotal entry.2).cpu, (podTotal entry.2).memory⟩

end Store

section Collecting

/-- The store, and the items of the last list call that succeeded. -/
structure State where
  podMetrics : Store
  recent : List Item

inductive Collection where
  | failed
  | listed (now : Int) (listing : Listing)

def step (p : Platform) (s : State) : Collection → Option State
  | .failed => some s
  | .listed now listing => some ⟨collectPodMetrics p now listing.items s.podMetrics, listing.items⟩

def start : State := ⟨[], []⟩

/-- A pod's sample: of a name listed twice the later usage. -/
def sample (p : Platform) (item : Item) : List (String × Usage) := setAll [] (readings p item)

def sumOf (f : Usage → Int) (usages : List (String × Usage)) : Int :=
  (usages.map fun entry => f entry.2).sum

/-- The metrics given for each pod of the last collection are those of its sample, once. -/
def LatestIsSample (p : Platform) (s : State) : Prop :=
  ∀ item ∈ s.recent, (getAllPodMetricsLatest s.podMetrics).filter
    (fun t => t.namespace_ = item.namespace_ ∧ t.name = item.name) =
      [⟨item.namespace_, item.name, sumOf Usage.cpu (sample p item), sumOf Usage.memory (sample p item)⟩]

/-- The last points a pod's buffers hold. -/
def latest (containers : List (String × RingBuffer)) : List (String × Usage) :=
  containers.filterMap fun entry =>
    (getAll entry.2).getLast?.map fun last => (entry.1, ⟨last.cpu, last.memory⟩)

def held (podMetrics : Store) (item : Item) : List (String × Usage) :=
  latest ((podMetrics.lookup item.key).map PodMetricsBuffer.containers |>.getD [])

/-- The containers a pod has buffers for and no point in this sample. -/
def missing (p : Platform) (podMetrics : Store) (item : Item) : List (String × Usage) :=
  (held podMetrics item).filter fun entry => entry.1 ∉ (readings p item).map Prod.fst

/-- One of the two sums is right: it fits, and what the missing containers add to it is nothing. -/
def SumRight (p : Platform) (podMetrics : Store) (item : Item) (f : Usage → Int) : Prop :=
  (-0x8000000000000000 ≤ sumOf f (sample p item) ∧ sumOf f (sample p item) < 0x8000000000000000) ∧
    (0x10000000000000000 : Int) ∣ sumOf f (missing p podMetrics item)

/-- No listed pod lacks a container it had, as far as that shows. -/
def Complete (p : Platform) (s : State) : Collection → Prop
  | .failed => True
  | .listed _ listing => ∀ item ∈ listing.items,
      SumRight p s.podMetrics item Usage.cpu ∧ SumRight p s.podMetrics item Usage.memory

end Collecting

section Rings
variable {log : List MetricsDataPoint}

/-- A ring that holds the front of a log, filled from its first slot on. -/
structure Keeps (rb : RingBuffer) (log : List MetricsDataPoint) : Prop where
  holds : RingLog.Holds rb log
  filling : rb.count < rb.slots.length → rb.head = rb.count

theorem new_keeps : Keeps newRingBuffer [] := by
  constructor
  · exact RingLog.holds_empty _ (by simp [metricsHistorySize])
  · intro _
    rfl

theorem push_keeps {rb : RingBuffer} (keeps : Keeps rb log)
    (x : MetricsDataPoint) : Keeps (rb.push x) (x :: log) := by
  constructor
  · exact RingLog.holds_push keeps.holds x
  · have inside := keeps.holds.inside
    have filling := keeps.filling
    have next := RingLog.next_head inside
    simp only [RingLog.Ring.push, length_set]
    intro room
    split at room
    · rename_i before
      rw [if_pos before, next, if_neg (by omega)]
      have head := filling before
      omega
    · rename_i full
      exact absurd room full

/-- The last of all points is the one pushed last. -/
theorem getAll_last {rb : RingBuffer} {x : MetricsDataPoint}
    (keeps : Keeps rb (x :: log)) : (getAll rb).getLast? = some x := by
  have inside := keeps.holds.inside
  have count := keeps.holds.count
  have slot := keeps.holds.slot 0
  rw [length_cons] at count
  rw [getElem?_cons_zero, RingLog.back_eq inside (by omega)] at slot
  have some_ : rb.count ≠ 0 := by omega
  have last := slot (by omega)
  rw [getAll, if_neg some_]
  split
  · rename_i room
    have head := keeps.filling room
    rw [if_pos (by omega), head] at last
    rw [getLast?_eq_getElem?, length_take, Nat.min_eq_left (by omega),
      getElem?_take_of_lt (by omega)]
    exact last
  · rename_i full
    have size : rb.count = rb.slots.length := by omega
    have back := RingLog.back_eq (i := 0) inside (by omega)
    have index : rb.head + (rb.count - 1) = rb.head + rb.slots.length - 1 - 0 := by omega
    rw [getLast?_eq_getElem?, length_map, length_range, getElem?_map,
      getElem?_range (by omega), Option.map_some, index]
    rw [← back] at last
    rw [getD_eq_getElem?_getD]
    rw [RingLog.back] at last
    rw [last]
    rfl

end Rings

section Totals
variable {containers : List (String × RingBuffer)}

structure Recorded (containers : List (String × RingBuffer)) : Prop where
  keyed : Keyed containers
  rings : ∀ entry ∈ containers, ∃ x log, Keeps entry.2 (x :: log)

theorem latest_filter (keep : String → Bool) : latest (containers.filter fun entry => keep entry.1) =
      (latest containers).filter fun entry => keep entry.1 := by
  induction containers with
  | nil => rfl
  | cons entry rest ih =>
    unfold latest at ih ⊢
    cases last : (getAll entry.2).getLast? <;> cases keeps : keep entry.1 <;>
      simp [last, keeps, ih]

/-- A point written is the name's new latest, and the others stay. -/
theorem latest_addPoint (recorded : Recorded containers) (now : Int) (reading : String × Usage) :
    latest (addPoint now containers reading) = set (latest containers) reading ∧
      Recorded (addPoint now containers reading) := by
  have kept : ∃ log, Keeps ((containers.lookup reading.1).getD newRingBuffer) log := by
    cases found : containers.lookup reading.1 with
    | none => exact ⟨[], new_keeps⟩
    | some rb =>
      obtain ⟨x, log, keeps⟩ := recorded.rings _ ((lookup_iff recorded.keyed).mp found)
      exact ⟨x :: log, keeps⟩
  obtain ⟨log, keeps⟩ := kept
  have pushed := push_keeps keeps ⟨now, reading.2.cpu, reading.2.memory⟩
  constructor
  · have others := @latest_filter containers fun name => decide (name ≠ reading.1)
    rw [addPoint, WriteMap.set, WriteMap.set, ← others]
    simp [latest, getAll_last pushed]
  · constructor
    · exact set_keyed recorded.keyed _
    · intro entry member
      cases mem_set.mp member with
      | inl here =>
        rw [here]
        exact ⟨_, _, pushed⟩
      | inr other => exact recorded.rings entry other.1

theorem latest_readings (recorded : Recorded containers) (now : Int) (usages : List (String × Usage)) :
    latest (usages.foldl (addPoint now) containers) = setAll (latest containers) usages ∧
      Recorded (usages.foldl (addPoint now) containers) := by
  induction usages generalizing containers with
  | nil => exact ⟨rfl, recorded⟩
  | cons reading rest ih =>
    obtain ⟨one, recorded'⟩ := latest_addPoint recorded now reading
    obtain ⟨all, recorded''⟩ := ih recorded'
    refine ⟨?_, recorded''⟩
    rw [foldl_cons, all, one]
    rfl

theorem sumOf_append (f : Usage → Int) (a b : List (String × Usage)) :
    sumOf f (a ++ b) = sumOf f a + sumOf f b := by
  rw [sumOf, map_append, sum_append]
  rfl

theorem wrap64_wrap64 (a : Int) : wrap64 (wrap64 a) = wrap64 a := Int.bmod_bmod

theorem wrap64_add (a b : Int) : wrap64 (wrap64 a + b) = wrap64 (a + b) := Int.bmod_add_bmod

/-- The running sums wrap as the whole sum does. -/
theorem foldl_addLast {total : Usage} (cpu : wrap64 total.cpu = total.cpu)
    (memory : wrap64 total.memory = total.memory) : containers.foldl addLast total =
      ⟨wrap64 (total.cpu + sumOf Usage.cpu (latest containers)),
        wrap64 (total.memory + sumOf Usage.memory (latest containers))⟩ := by
  induction containers generalizing total with
  | nil => simp [latest, sumOf, cpu, memory]
  | cons entry rest ih =>
    rw [foldl_cons]
    cases last : (getAll entry.2).getLast? with
    | none =>
      have same : addLast total entry = total := by rw [addLast, last]
      have none : latest (entry :: rest) = latest rest := by simp [latest, last]
      rw [same, none]
      exact ih cpu memory
    | some x =>
      have added : addLast total entry = ⟨wrap64 (total.cpu + x.cpu), wrap64 (total.memory + x.memory)⟩ := by
        rw [addLast, last]
      have more : latest (entry :: rest) = (entry.1, ⟨x.cpu, x.memory⟩) :: latest rest := by
        simp [latest, last]
      have others := @ih ⟨wrap64 (total.cpu + x.cpu), wrap64 (total.memory + x.memory)⟩
        (wrap64_wrap64 _) (wrap64_wrap64 _)
      simp only [added, others, more, wrap64_add, sumOf, map_cons, sum_cons, Int.add_assoc]

theorem podTotal_eq (podBuf : PodMetricsBuffer) : podTotal podBuf =
    ⟨wrap64 (sumOf Usage.cpu (latest podBuf.containers)),
      wrap64 (sumOf Usage.memory (latest podBuf.containers))⟩ := by
  have all := @foldl_addLast podBuf.containers ⟨0, 0⟩ (by decide) (by decide)
  rw [Int.zero_add, Int.zero_add] at all
  exact all

theorem wrap64_eq_iff (a b : Int) : wrap64 (b + a) = b ↔
    (-0x8000000000000000 ≤ b ∧ b < 0x8000000000000000) ∧ (0x10000000000000000 : Int) ∣ a := by
  rw [wrap64, Int.bmod_eq_iff (by decide)]
  constructor
  · rintro ⟨low, high, many⟩
    refine ⟨⟨by omega, by omega⟩, ?_⟩
    have negated : b - (b + a) = -a := by omega
    rw [negated] at many
    exact (Int.dvd_neg).mp many
  · rintro ⟨⟨low, high⟩, many⟩
    refine ⟨by omega, by omega, ?_⟩
    have negated : b - (b + a) = -a := by omega
    rw [negated]
    exact (Int.dvd_neg).mpr many

end Totals

section Items
variable {p : Platform} {podMetrics : Store} {now : Int}

structure Sound (podMetrics : Store) : Prop where
  keyed : Keyed podMetrics
  named : ∀ entry ∈ podMetrics, entry.1 = entry.2.namespace_ ++ "/" ++ entry.2.name
  plain : ∀ entry ∈ podMetrics, '/' ∉ entry.2.namespace_.toList
  recorded : ∀ entry ∈ podMetrics, Recorded entry.2.containers

theorem recorded_nil : Recorded [] := by
  constructor
  · exact nodup_nil
  · intro entry impossible
    cases impossible

/-- The buffer an item finds or begins. -/
def found (podMetrics : Store) (item : Item) (now : Int) : PodMetricsBuffer :=
  (podMetrics.lookup item.key).getD (newPod item now)

theorem found_pod (sound : Sound podMetrics) (item : Item) (now : Int) :
    (found podMetrics item now).namespace_ = item.namespace_ ∧
      (found podMetrics item now).name = item.name ∧
      Recorded (found podMetrics item now).containers ∧
      latest (found podMetrics item now).containers = held podMetrics item := by
  unfold found held
  cases hit : podMetrics.lookup item.key with
  | none => exact ⟨rfl, rfl, recorded_nil, rfl⟩
  | some podBuf =>
    have member := (lookup_iff sound.keyed).mp hit
    obtain ⟨namespace_, name⟩ := GoText.slash_inj item.plain (sound.plain _ member) (sound.named _ member)
    exact ⟨namespace_.symm, name.symm, sound.recorded _ member, rfl⟩

theorem collectItem_sound (sound : Sound podMetrics) (item : Item) :
    Sound (collectItem p now podMetrics item) := by
  obtain ⟨namespace_, name, recorded, _⟩ := found_pod sound item now
  constructor
  · exact set_keyed sound.keyed _
  · intro entry member
    cases mem_set.mp member with
    | inl here =>
      rw [here]
      show item.namespace_ ++ "/" ++ item.name = _
      rw [← namespace_, ← name]
      rfl
    | inr other => exact sound.named entry other.1
  · intro entry member
    cases mem_set.mp member with
    | inl here =>
      rw [here]
      exact namespace_ ▸ item.plain
    | inr other => exact sound.plain entry other.1
  · intro entry member
    cases mem_set.mp member with
    | inl here =>
      rw [here]
      exact (latest_readings recorded now (readings p item)).2
    | inr other => exact sound.recorded entry other.1

theorem collect_sound (sound : Sound podMetrics) (items : List Item) :
    Sound (items.foldl (collectItem p now) podMetrics) := by
  induction items generalizing podMetrics with
  | nil => exact sound
  | cons item rest ih => exact ih (collectItem_sound sound item)

theorem sound_filter (sound : Sound podMetrics) (keep : String × PodMetricsBuffer → Bool) :
    Sound (podMetrics.filter keep) := by
  constructor
  · exact sound.keyed.sublist (List.Sublist.map _ filter_sublist)
  · exact fun entry member => sound.named entry (mem_filter.mp member).1
  · exact fun entry member => sound.plain entry (mem_filter.mp member).1
  · exact fun entry member => sound.recorded entry (mem_filter.mp member).1

/-- Items of other pods do not touch a pod's buffer. -/
theorem lookup_others {items : List Item} {key : String} (others : ∀ item ∈ items, key ≠ item.key) :
    (items.foldl (collectItem p now) podMetrics).lookup key = podMetrics.lookup key := by
  induction items generalizing podMetrics with
  | nil => rfl
  | cons item rest ih =>
    rw [foldl_cons, ih fun other member => others other (mem_cons_of_mem _ member),
      collectItem, lookup_set, if_neg (others item mem_cons_self)]

/-- Each pod listed ends up with what its item makes of the buffer it had before the collection. -/
theorem lookup_collected {items : List Item} (distinct : (items.map Item.key).Nodup) {item : Item}
    (member : item ∈ items) : (items.foldl (collectItem p now) podMetrics).lookup item.key =
      some (observe p now item (found podMetrics item now)) := by
  induction items generalizing podMetrics with
  | nil => cases member
  | cons first rest ih =>
    rw [map_cons, nodup_cons] at distinct
    rw [foldl_cons]
    cases mem_cons.mp member with
    | inl here =>
      subst here
      have others : ∀ other ∈ rest, item.key ≠ other.key := fun other later same =>
        distinct.1 (same ▸ mem_map_of_mem later)
      rw [lookup_others others, collectItem, lookup_set, if_pos rfl]
      rfl
    | inr later =>
      have apart : item.key ≠ first.key := fun same => distinct.1 (same ▸ mem_map_of_mem later)
      rw [ih distinct.2 later, found, found, collectItem, lookup_set, if_neg apart]

end Items

section Runs
variable {p : Platform} {podMetrics : Store}

theorem named_iff (sound : Sound podMetrics) (item : Item)
    {entry : String × PodMetricsBuffer} (member : entry ∈ podMetrics) :
    (entry.2.namespace_ = item.namespace_ ∧ entry.2.name = item.name) ↔ entry.1 = item.key := by
  have named := sound.named entry member
  constructor
  · rintro ⟨namespace_, name⟩
    rw [named, namespace_, name]
    rfl
  · intro same
    exact GoText.slash_inj (sound.plain entry member) item.plain (named.symm.trans same)

theorem latest_named (sound : Sound podMetrics) {item : Item}
    {podBuf : PodMetricsBuffer} (member : (item.key, podBuf) ∈ podMetrics) :
    (getAllPodMetricsLatest podMetrics).filter
      (fun t => t.namespace_ = item.namespace_ ∧ t.name = item.name) =
        [⟨podBuf.namespace_, podBuf.name, (podTotal podBuf).cpu, (podTotal podBuf).memory⟩] := by
  have one := filter_key sound.keyed member
  have same : (podMetrics.filter fun entry =>
      decide (entry.2.namespace_ = item.namespace_ ∧ entry.2.name = item.name)) =
        podMetrics.filter fun entry => entry.1 = item.key := by
    apply filter_congr
    intro entry inside
    exact decide_eq_decide.mpr (named_iff sound item inside)
  rw [getAllPodMetricsLatest, filter_map]
  simp only [Function.comp_def]
  rw [same, one]
  rfl

/-- The entry of a listed pod in the result: its sample, and what is missing from it. -/
theorem latest_entry (sound : Sound podMetrics) {now : Int} {listing : Listing}
    {item : Item} (member : item ∈ listing.items) :
    (getAllPodMetricsLatest (collectPodMetrics p now listing.items podMetrics)).filter
      (fun t => t.namespace_ = item.namespace_ ∧ t.name = item.name) = [⟨item.namespace_, item.name,
          wrap64 (sumOf Usage.cpu (sample p item) + sumOf Usage.cpu (missing p podMetrics item)),
          wrap64 (sumOf Usage.memory (sample p item) +
            sumOf Usage.memory (missing p podMetrics item))⟩] := by
  have collected := @collect_sound p podMetrics now sound listing.items
  have hit := @lookup_collected p podMetrics now listing.items listing.distinct item member
  have inside := (lookup_iff collected.keyed).mp hit
  have fresh : ¬ now < now - staleAfter := by
    unfold staleAfter
    omega
  have kept : (item.key, observe p now item (found podMetrics item now)) ∈
      collectPodMetrics p now listing.items podMetrics :=
    mem_filter.mpr ⟨inside, decide_eq_true fresh⟩
  obtain ⟨namespace_, name, recorded, before⟩ := found_pod sound item now
  have after := (latest_readings recorded now (readings p item)).1
  rw [before, setAll_split] at after
  have total := podTotal_eq (observe p now item (found podMetrics item now))
  have points : latest (observe p now item (found podMetrics item now)).containers =
      sample p item ++ missing p podMetrics item := after
  rw [points, sumOf_append, sumOf_append] at total
  have listed := latest_named (sound_filter collected _) kept
  rw [total] at listed
  rw [← namespace_, ← name]
  rw [← namespace_, ← name] at listed
  exact listed

theorem start_sound : Sound start.podMetrics := by
  constructor
  · exact nodup_nil
  all_goals
    intro entry impossible
    cases impossible

/-- After a collection the result is right exactly when the listing was complete. -/
theorem listed_iff {s : State} (sound : Sound s.podMetrics) (now : Int) (listing : Listing) :
    LatestIsSample p ⟨collectPodMetrics p now listing.items s.podMetrics, listing.items⟩ ↔
      Complete p s (.listed now listing) := by
  have each : ∀ item ∈ listing.items,
      ((getAllPodMetricsLatest (collectPodMetrics p now listing.items s.podMetrics)).filter
        (fun t => t.namespace_ = item.namespace_ ∧ t.name = item.name) =
          [⟨item.namespace_, item.name, sumOf Usage.cpu (sample p item),
            sumOf Usage.memory (sample p item)⟩] ↔
        SumRight p s.podMetrics item Usage.cpu ∧ SumRight p s.podMetrics item Usage.memory) := by
    intro item member
    rw [latest_entry sound member]
    simp only [cons.injEq, TopPodMetrics.mk.injEq, true_and, and_true]
    exact and_congr (wrap64_eq_iff _ _) (wrap64_eq_iff _ _)
  constructor
  · exact fun right item member => (each item member).mp (right item member)
  · exact fun complete item member => (each item member).mpr (complete item member)

/-- In every run the latest metrics are the latest sample in each state reached exactly when each
    collection listed every container that its pod still had a point of. -/
theorem latest_iff (collections : List Collection) :
    Runs.Along (step p) (LatestIsSample p) start collections ↔
      Runs.Guarded (step p) (Complete p) start collections := by
  apply @Runs.along_iff_guarded _ _ _ _ (fun s => Sound s.podMetrics ∧ LatestIsSample p s) _
  · rintro s (_ | ⟨now, listing⟩) t ⟨sound, right⟩ complete moved
    · cases moved
      exact ⟨sound, right⟩
    · cases moved
      exact ⟨sound_filter (collect_sound sound listing.items) _,
        (listed_iff sound now listing).mpr complete⟩
  · exact fun s inv => inv.2
  · rintro s (_ | ⟨now, listing⟩) ⟨sound, right⟩ after
    · trivial
    · exact (listed_iff sound now listing).mp (after _ rfl)
  · refine ⟨start_sound, ?_⟩
    intro item impossible
    cases impossible

end Runs

section Example

theorem shop_plain : '/' ∉ "shop".toList := by decide

/-- A container's metrics as the API sends them. -/
def container (name cpu memory : String) : Value := .object [("name", .string name),
    ("usage", .object [("cpu", .string cpu), ("memory", .string memory)])]

def webMetrics (containers : List Value) : Item where
  namespace_ := "shop"
  name := "web"
  object := [("containers", .array containers)]
  plain := shop_plain

theorem web_distinct (containers : List Value) :
    ([webMetrics containers].map Item.key).Nodup := nodup_singleton _

/-- The sidecar is there in the first collection and gone in the second. -/
def sidecarGone : List Collection :=
  [.listed 0 ⟨[webMetrics [container "app" "100m" "64Mi", container "sidecar" "50m" "16Mi"]],
      web_distinct _⟩,
    .listed 30000000000 ⟨[webMetrics [container "app" "100m" "64Mi"]], web_distinct _⟩]

/-- After the second collection the sidecar's last point is still counted. -/
theorem sidecar_counted :
    ¬ Runs.Along (step QuantityExact.truncating) (LatestIsSample QuantityExact.truncating) start
      sidecarGone := by
  intro along
  have second := Runs.along_head ((along.2 _ rfl).2 _ rfl)
  have given := second (webMetrics [container "app" "100m" "64Mi"]) List.mem_cons_self
  exact absurd given (by decide +kernel)

end Example

end MetricsHistory
