import Mathlib.Data.BitVec
import Radar.Base.Arrange
import Radar.Base.KeyedFold
import Radar.Base.LockStep
import Radar.Base.WriteMap
import Radar.K8s.QuantityParsers

/- pkg/traffic/aggregation.go: the flows of one pair of services and port put together. Times are
   instants; the fields that are floats are left out. -/
namespace FlowAggregation
open QuantityParsers List

section Model

/-- An int64. -/
abbrev Word := BitVec 64

inductive Rate where
  | nan | inf
  | finite (q : ℚ)

structure Endpoint where
  name : String
  namespace_ : String
  kind : String
  ip : String
  labels : String → Option String
  workload : String
  port : Int

structure Flow where
  source : Endpoint
  destination : Endpoint
  protocol : String
  port : Int
  l7Protocol : String
  httpMethod : String
  httpPath : String
  httpStatus : Int
  dnsQuery : String
  dnsTTL : BitVec 32
  dnsRCode : BitVec 32
  dropReasonDesc : String
  bytesSent : Word
  bytesRecv : Word
  connections : Word
  verdict : String
  lastSeen : Int
  requestRate : Rate
  errorRate : Rate

structure HTTPPathStat where
  method : String
  path : String
  count : Word
  deriving DecidableEq

structure DNSQueryStat where
  query : String
  count : Word
  nxCount : Word
  avgTTL : BitVec 32
  deriving DecidableEq

/-- A map is the list of its entries; nil and the empty map are one. -/
structure AggregatedFlow where
  source : Endpoint
  destination : Endpoint
  protocol : String
  port : Int
  flowCount : Word
  bytesSent : Word
  bytesRecv : Word
  connections : Word
  lastSeen : Int
  l7Protocol : String
  requestCount : Word
  errorCount : Word
  httpStatusCounts : List (String × Word)
  topHTTPPaths : List HTTPPathStat
  topDNSQueries : List DNSQueryStat
  verdictCounts : List (String × Word)
  dropReasons : List (String × Word)

/-- Queries, those of them that found no name, and the sum of the TTLs. -/
abbrev DnsAcc := Word × Word × Word

structure FlowAccumulator where
  key : String
  agg : AggregatedFlow
  statusCount : List (String × Word)
  pathStats : List (String × Word)
  dnsStats : List (String × DnsAcc)
  verdicts : List (String × Word)
  dropReasons : List (String × Word)
  l7Votes : List (String × Word)

variable (p : Platform)

/-- math.Round is away from zero at a half. -/
def roundRate : Rate → Word
  | .finite q =>
    if q ≤ 0 then 0
    else
      let r : Word := BitVec.ofInt 64 (p.toInt64 (⌊q + 1 / 2⌋ : Int))
      if r = 0 then 1 else r
  | _ => 0

def pairKey (source destination : Endpoint) (port : Int) : String :=
  source.namespace_ ++ "/" ++ source.name ++ "|" ++ destination.namespace_ ++ "/" ++ destination.name ++
    "|" ++ toString port

def keyOf (f : Flow) : String := pairKey f.source f.destination f.port

/-- An entry under a name, if there is a name. -/
def named {α : Type} (name : String) (x : α) : List (String × α) := if name = "" then [] else [(name, x)]

def votesOf (f : Flow) : List (String × Word) :=
  named f.l7Protocol (if f.connections.toInt ≤ 0 then 1 else f.connections)

def statusOf (f : Flow) : List (String × Word) :=
  if 0 < f.httpStatus then [(toString (f.httpStatus / 100) ++ "xx", 1)] else []

def pathOf (f : Flow) : List (String × Word) :=
  if f.httpMethod = "" then [] else [(f.httpMethod ++ " " ++ f.httpPath, 1)]

def dnsOf (f : Flow) : List (String × DnsAcc) :=
  named f.dnsQuery (1, if f.dnsRCode = 3 then 1 else 0, f.dnsTTL.setWidth 64)

def verdictOf (f : Flow) : List (String × Word) := named f.verdict 1

def dropOf (f : Flow) : List (String × Word) := named f.dropReasonDesc 1

/-- The body of the loop over the flows, after the accumulator of the flow's key is there. -/
def accumulating : KeyedFold.Folding Flow FlowAccumulator String where
  keyOf := keyOf
  key := FlowAccumulator.key
  start := fun f =>
    { key := keyOf f
      agg := ⟨f.source, f.destination, f.protocol, f.port, 0, 0, 0, 0, f.lastSeen, "", 0, 0, [], [], [], [], []⟩
      statusCount := []
      pathStats := []
      dnsStats := []
      verdicts := []
      dropReasons := []
      l7Votes := [] }
  add := fun acc f =>
    { acc with
      agg := { acc.agg with
          flowCount := acc.agg.flowCount + 1
          bytesSent := acc.agg.bytesSent + f.bytesSent
          bytesRecv := acc.agg.bytesRecv + f.bytesRecv
          connections := acc.agg.connections + f.connections
          requestCount := acc.agg.requestCount + roundRate p f.requestRate
          errorCount := acc.agg.errorCount + roundRate p f.errorRate
          lastSeen := if acc.agg.lastSeen < f.lastSeen then f.lastSeen else acc.agg.lastSeen }
      l7Votes := WriteMap.addAll acc.l7Votes (votesOf f)
      statusCount := WriteMap.addAll acc.statusCount (statusOf f)
      pathStats := WriteMap.addAll acc.pathStats (pathOf f)
      dnsStats := WriteMap.addAll acc.dnsStats (dnsOf f)
      verdicts := WriteMap.addAll acc.verdicts (verdictOf f)
      dropReasons := WriteMap.addAll acc.dropReasons (dropOf f) }
  key_start := fun _ => rfl
  key_add := fun _ _ => rfl

def accumulators (flows : List Flow) : List FlowAccumulator := (accumulating p).gather flows

/-- The loop over the votes in the order in which it meets them. -/
def majority (votes : List (String × Word)) : String :=
  (Selection.select (fun x held : String × Word => held.2.slt x.2) ("", 0) votes).1

/-- strings.SplitN(key, " ", 2) -/
def pathStat (e : String × Word) : HTTPPathStat := match GoText.cut ' ' e.1 with
  | some (method, path) => ⟨method, path, e.2⟩
  | none => ⟨e.1, "", e.2⟩

def dnsStat (e : String × DnsAcc) : DNSQueryStat :=
  { query := e.1
    count := e.2.1
    nxCount := e.2.2.1
    avgTTL := if 0 < e.2.1.toInt ∧ 0 < e.2.2.2 then (e.2.2.2 / e.2.1).setWidth 32 else 0 }

/-- The accumulator with its votes, paths and queries in the orders in which they come. -/
def finalize (acc : FlowAccumulator) (votes : List (String × Word)) (paths : List HTTPPathStat)
    (queries : List DNSQueryStat) : AggregatedFlow :=
  { acc.agg with
    l7Protocol := majority votes
    httpStatusCounts := acc.statusCount
    topHTTPPaths := paths.take 10
    topDNSQueries := queries.take 10
    verdictCounts := acc.verdicts
    dropReasons := acc.dropReasons }

/-- What the sort by counts goes by: the greater count is before. -/
def fewer (count : Word) : Int := -count.toInt

/-- The map of votes is met in any order; sort.Slice leaves equal counts in any order. -/
def Finalized (acc : FlowAccumulator) (agg : AggregatedFlow) : Prop :=
  ∃ votes paths queries, votes.Perm acc.l7Votes ∧
    Arrange.Arranged (fun a b => fewer a.count ≤ fewer b.count) (acc.pathStats.map pathStat) paths ∧
    Arrange.Arranged (fun a b => fewer a.count ≤ fewer b.count) (acc.dnsStats.map dnsStat) queries ∧
    agg = finalize acc votes paths queries

/-- What AggregateFlows may return: the accumulators too are met in any order. -/
def AggregateFlows (flows : List Flow) (result : List AggregatedFlow) : Prop :=
  ∃ accs, accs.Perm (accumulators p flows) ∧ List.Forall₂ Finalized accs result

end Model

variable {a : AggregatedFlow} {group : List Flow} {f : Flow}

section Claims
variable (p : Platform)

/-- The key of the flows that an aggregated one is made of. -/
def keyFrom (a : AggregatedFlow) : String := pairKey a.source a.destination a.port

structure Same (a b : AggregatedFlow) : Prop where
  plain : { a with httpStatusCounts := [], verdictCounts := [], dropReasons := [] } =
    { b with httpStatusCounts := [], verdictCounts := [], dropReasons := [] }
  status : ∀ bucket, a.httpStatusCounts.lookup bucket = b.httpStatusCounts.lookup bucket
  verdicts : ∀ verdict, a.verdictCounts.lookup verdict = b.verdictCounts.lookup verdict
  drops : ∀ reason, a.dropReasons.lookup reason = b.dropReasons.lookup reason

def SameSet (result result' : List AggregatedFlow) : Prop :=
  (∀ a ∈ result, ∃ b ∈ result', Same a b) ∧ ∀ b ∈ result', ∃ a ∈ result, Same a b

/-- The same aggregated flows in every order of the flows and of what is in maps. -/
def Free (flows : List Flow) : Prop :=
  ∀ ys result result', ys.Perm flows → AggregateFlows p flows result → AggregateFlows p ys result' →
    SameSet result result'

/-- One aggregated flow for each key, with the identity of one of the flows of the key. -/
structure ByPair (flows : List Flow) (result : List AggregatedFlow) : Prop where
  once : (result.map keyFrom).Nodup
  every : ∀ f ∈ flows, ∃ a ∈ result, keyFrom a = keyOf f
  identity : ∀ a ∈ result, ∃ f ∈ flows, keyFrom a = keyOf f ∧ a.source = f.source ∧
    a.destination = f.destination ∧ a.protocol = f.protocol ∧ a.port = f.port

structure Totals (flows : List Flow) (result : List AggregatedFlow) : Prop where
  flowCount : (result.map AggregatedFlow.flowCount).sum = flows.length
  bytesSent : (result.map AggregatedFlow.bytesSent).sum = (flows.map Flow.bytesSent).sum
  bytesRecv : (result.map AggregatedFlow.bytesRecv).sum = (flows.map Flow.bytesRecv).sum
  connections : (result.map AggregatedFlow.connections).sum = (flows.map Flow.connections).sum
  status : ∀ bucket, (result.map fun a => WriteMap.amount a.httpStatusCounts bucket).sum =
    WriteMap.total (flows.flatMap statusOf) bucket
  verdicts : ∀ verdict, (result.map fun a => WriteMap.amount a.verdictCounts verdict).sum =
    WriteMap.total (flows.flatMap verdictOf) verdict
  drops : ∀ reason, (result.map fun a => WriteMap.amount a.dropReasons reason).sum =
    WriteMap.total (flows.flatMap dropOf) reason

/-- A protocol with votes, and none has more. -/
def Leads (group : List Flow) (proto : String) : Prop := proto ∈ (group.flatMap votesOf).map Prod.fst ∧
    0 < (WriteMap.total (group.flatMap votesOf) proto).toInt ∧
    ∀ other ∈ (group.flatMap votesOf).map Prod.fst, (WriteMap.total (group.flatMap votesOf) other).toInt ≤
        (WriteMap.total (group.flatMap votesOf) proto).toInt

/-- Names of one count have ten of greater counts before them. -/
def Clear (names : List String) (count : String → Int) : Prop :=
  ∀ a ∈ names, ∀ b ∈ names, a ≠ b → count a = count b →
    10 ≤ (names.dedup.filter fun c => decide (count a < count c)).length

/-- What of the flows of one key leaves nothing to their order. -/
structure Determined (group : List Flow) : Prop where
  agree : ∀ f ∈ group, ∀ f' ∈ group, f.source = f'.source ∧ f.destination = f'.destination ∧
    f.protocol = f'.protocol ∧ f.port = f'.port
  vote : ∀ proto other, Leads group proto → Leads group other → proto = other
  paths : Clear ((group.flatMap pathOf).map Prod.fst) fun path =>
    (WriteMap.total (group.flatMap pathOf) path).toInt
  queries : Clear ((group.flatMap dnsOf).map Prod.fst) fun query =>
    (WriteMap.total (group.flatMap dnsOf) query).1.toInt

end Claims

section Accumulated
variable {p : Platform} {flows : List Flow} {acc : FlowAccumulator}

def later (seen : Int) (f : Flow) : Int := if seen < f.lastSeen then f.lastSeen else seen

/-- An accumulator after more flows. -/
def FlowAccumulator.after (p : Platform) (acc : FlowAccumulator) (flows : List Flow) : FlowAccumulator :=
  { acc with
    agg := { acc.agg with
        flowCount := acc.agg.flowCount + flows.length
        bytesSent := acc.agg.bytesSent + (flows.map Flow.bytesSent).sum
        bytesRecv := acc.agg.bytesRecv + (flows.map Flow.bytesRecv).sum
        connections := acc.agg.connections + (flows.map Flow.connections).sum
        requestCount := acc.agg.requestCount + (flows.map fun f => roundRate p f.requestRate).sum
        errorCount := acc.agg.errorCount + (flows.map fun f => roundRate p f.errorRate).sum
        lastSeen := flows.foldl later acc.agg.lastSeen }
    l7Votes := WriteMap.addAll acc.l7Votes (flows.flatMap votesOf)
    statusCount := WriteMap.addAll acc.statusCount (flows.flatMap statusOf)
    pathStats := WriteMap.addAll acc.pathStats (flows.flatMap pathOf)
    dnsStats := WriteMap.addAll acc.dnsStats (flows.flatMap dnsOf)
    verdicts := WriteMap.addAll acc.verdicts (flows.flatMap verdictOf)
    dropReasons := WriteMap.addAll acc.dropReasons (flows.flatMap dropOf) }

theorem foldl_after (flows : List Flow) (acc : FlowAccumulator) :
    flows.foldl (accumulating p).add acc = acc.after p flows := by
  induction flows generalizing acc with
  | nil => simp [FlowAccumulator.after, WriteMap.addAll]
  | cons f rest ih =>
    rw [foldl_cons, ih]
    simp [FlowAccumulator.after, accumulating, WriteMap.addAll_append, later, add_assoc, add_comm,
      add_left_comm]

/-- The accumulator of some flows of one key, the first of which is given. -/
def accOf (p : Platform) (f : Flow) (group : List Flow) : FlowAccumulator :=
  ((accumulating p).start f).after p group

theorem keys_once (flows : List Flow) : ((accumulators p flows).map FlowAccumulator.key).Nodup :=
  (KeyedFold.gather_spec (F := accumulating p) flows).1

theorem key_used (member : f ∈ flows) : ∃ acc ∈ accumulators p flows, acc.key = keyOf f :=
  mem_map.mp (((KeyedFold.gather_spec (F := accumulating p) flows).2.1 (keyOf f)).mpr ⟨f, member, rfl⟩)

/-- An accumulator is that of the flows of its key. -/
theorem acc_made (member : acc ∈ accumulators p flows) :
    ∃ f rest, (flows.filter fun f => keyOf f = acc.key) = f :: rest ∧ acc = accOf p f (f :: rest) := by
  obtain ⟨f, rest, listed, made⟩ := (KeyedFold.gather_spec (F := accumulating p) flows).2.2 acc member
  change (flows.filter fun f => keyOf f = acc.key) = f :: rest at listed
  refine ⟨f, rest, listed, ?_⟩
  rw [accOf, ← foldl_after, ← listed]
  exact made

theorem acc_of_group {k : String} {rest : List Flow}
    (group : (flows.filter fun f => keyOf f = k) = f :: rest) : accOf p f (f :: rest) ∈ accumulators p flows := by
  have member : f ∈ flows.filter fun f => keyOf f = k := group ▸ mem_cons_self
  have own : keyOf f = k := of_decide_eq_true (mem_filter.mp member).2
  obtain ⟨acc, inside, key⟩ := key_used (p := p) (mem_of_mem_filter member)
  obtain ⟨f', rest', group', made⟩ := acc_made inside
  rw [key, own, group] at group'
  cases group'
  exact made ▸ inside

theorem finalized_key
    (finalized : Finalized (accOf p f group) a) : keyFrom a = keyOf f ∧ a.source = f.source ∧
      a.destination = f.destination ∧ a.protocol = f.protocol ∧ a.port = f.port := by
  obtain ⟨votes, paths, queries, _, _, _, rfl⟩ := finalized
  exact ⟨rfl, rfl, rfl, rfl, rfl⟩

theorem finalized_acc
    (member : acc ∈ accumulators p flows) (finalized : Finalized acc a) : keyFrom a = acc.key := by
  obtain ⟨f, rest, group, made⟩ := acc_made member
  have inside : f ∈ flows.filter fun f => keyOf f = acc.key := group ▸ mem_cons_self
  rw [made] at finalized
  exact (finalized_key finalized).1.trans (of_decide_eq_true (mem_filter.mp inside).2)

section Runs
variable {result : List AggregatedFlow}

theorem finalized_exists (acc : FlowAccumulator) : ∃ a, Finalized acc a := by
  have ranks : ∀ {σ : Type} (key : σ → Int), Selection.Ranks (fun a b => decide (key a < key b)) key :=
    fun key a b => by simp
  exact ⟨_, acc.l7Votes, _, _, List.Perm.refl _,
    ⟨Arrange.sort_perm _ _, Arrange.sort_ordered (ranks fun s : HTTPPathStat => fewer s.count) _⟩,
    ⟨Arrange.sort_perm _ _, Arrange.sort_ordered (ranks fun s : DNSQueryStat => fewer s.count) _⟩, rfl⟩

/-- Whatever one accumulator may come to, some result has it. -/
theorem run_with (member : acc ∈ accumulators p flows) (finalized : Finalized acc a) :
    ∃ result, AggregateFlows p flows result ∧ a ∈ result := by
  classical
  obtain ⟨front, back, split⟩ := append_of_mem member
  choose other finished using finalized_exists
  have all : ∀ accs : List FlowAccumulator, List.Forall₂ Finalized accs (accs.map other) := fun accs =>
    forall₂_map_right_iff.mpr (forall₂_same.mpr fun acc _ => finished acc)
  refine ⟨front.map other ++ a :: back.map other, ⟨_, List.Perm.refl _, ?_⟩, by simp⟩
  rw [split]
  exact rel_append (all front) (.cons finalized (all back))

theorem run_exists (flows : List Flow) : ∃ result, AggregateFlows p flows result := by
  choose other finished using finalized_exists
  exact ⟨_, _, List.Perm.refl _,
    forall₂_map_right_iff.mpr (forall₂_same.mpr fun acc _ => finished acc)⟩

theorem run_keys (run : AggregateFlows p flows result) :
    (result.map keyFrom).Perm ((accumulators p flows).map FlowAccumulator.key) := by
  obtain ⟨accs, perm, all⟩ := run
  have same : ∀ {accs : List FlowAccumulator} {result : List AggregatedFlow},
      List.Forall₂ Finalized accs result → (∀ acc ∈ accs, acc ∈ accumulators p flows) →
        result.map keyFrom = accs.map FlowAccumulator.key := by
    intro accs result all listed
    induction all with
    | nil => rfl
    | cons first _ ih =>
      rw [map_cons, map_cons, finalized_acc (listed _ mem_cons_self) first,
        ih fun acc member => listed acc (mem_cons_of_mem _ member)]
  rw [same all fun acc member => perm.mem_iff.mp member]
  exact perm.map _

theorem run_member (run : AggregateFlows p flows result) (member : a ∈ result) :
    ∃ acc ∈ accumulators p flows, Finalized acc a := by
  obtain ⟨accs, perm, all⟩ := run
  obtain ⟨acc, inside, finalized⟩ := LockStep.partner_left all member
  exact ⟨acc, perm.mem_iff.mp inside, finalized⟩

theorem run_covers (run : AggregateFlows p flows result)
    (member : acc ∈ accumulators p flows) : ∃ a ∈ result, Finalized acc a := by
  obtain ⟨accs, perm, all⟩ := run
  exact LockStep.partner_right all (perm.mem_iff.mpr member)

end Runs

end Accumulated

section Summed
variable {p : Platform} {flows : List Flow} {result : List AggregatedFlow}

theorem finalized_maps (finalized : Finalized (accOf p f group) a) :
    a.httpStatusCounts = WriteMap.addAll [] (group.flatMap statusOf) ∧
      a.verdictCounts = WriteMap.addAll [] (group.flatMap verdictOf) ∧
      a.dropReasons = WriteMap.addAll [] (group.flatMap dropOf) := by
  obtain ⟨votes, paths, queries, _, _, _, rfl⟩ := finalized
  exact ⟨rfl, rfl, rfl⟩

theorem finalized_counts (finalized : Finalized (accOf p f group) a) :
    a.flowCount = group.length ∧ a.bytesSent = (group.map Flow.bytesSent).sum ∧
      a.bytesRecv = (group.map Flow.bytesRecv).sum ∧ a.connections = (group.map Flow.connections).sum := by
  obtain ⟨votes, paths, queries, _, _, _, rfl⟩ := finalized
  exact ⟨zero_add _, zero_add _, zero_add _, zero_add _⟩

/-- The flows taken key by key are all the flows. -/
theorem groups_perm (flows : List Flow) (run : AggregateFlows p flows result) :
    (result.map fun a => flows.filter fun f => keyOf f = keyFrom a).flatten.Perm flows := by
  have keys := run_keys run
  have distinct : (result.map keyFrom).Nodup := keys.nodup_iff.mpr (keys_once flows)
  have covered : ∀ f ∈ flows, keyOf f ∈ result.map keyFrom := by
    intro f member
    obtain ⟨acc, inside, own⟩ := key_used (p := p) member
    exact keys.mem_iff.mpr (own ▸ mem_map_of_mem inside)
  have blocks := Partition.sorted_by_key_perm distinct covered
  rwa [map_map] at blocks

/-- What each aggregated flow adds up from its flows adds up to the whole. -/
theorem totals_over {α : Type} [AddCommMonoid α] (run : AggregateFlows p flows result)
    (out : AggregatedFlow → α) (part : Flow → α)
    (counted : ∀ f group a, Finalized (accOf p f group) a → out a = (group.map part).sum) :
    (result.map out).sum = (flows.map part).sum := by
  have each : ∀ a ∈ result, out a = ((flows.filter fun f => keyOf f = keyFrom a).map part).sum := by
    intro a member
    obtain ⟨acc, inside, finalized⟩ := run_member run member
    obtain ⟨f, rest, group, made⟩ := acc_made inside
    rw [finalized_acc inside finalized, group]
    rw [made] at finalized
    exact counted f (f :: rest) a finalized
  have whole := ((groups_perm flows run).map part).sum_eq
  rw [map_flatten, sum_flatten, map_map, map_map] at whole
  rw [map_congr_left each]
  exact whole

theorem total_flatMap {α : Type} [AddCommMonoid α] (group : List Flow) (entries : Flow → List (String × α))
    (k : String) : WriteMap.total (group.flatMap entries) k =
      (group.map fun f => WriteMap.total (entries f) k).sum := by
  induction group with
  | nil => rfl
  | cons f rest ih => rw [flatMap_cons, WriteMap.total_append, ih, map_cons, sum_cons]

theorem amount_total (entries : List (String × Word)) (k : String) :
    WriteMap.amount (WriteMap.addAll [] entries) k = WriteMap.total entries k := by
  rw [WriteMap.amount_addAll, WriteMap.amount_nil, zero_add]

theorem run_totals (run : AggregateFlows p flows result) : Totals flows result where
  flowCount := by
    have ones : ∀ group : List Flow, (group.length : Word) = (group.map fun _ => (1 : Word)).sum := by
      intro group
      simp
    rw [ones flows]
    refine totals_over run _ _ fun f group a finalized => ?_
    rw [(finalized_counts finalized).1]
    exact ones group
  bytesSent := totals_over run _ _ fun _ _ _ finalized => (finalized_counts finalized).2.1
  bytesRecv := totals_over run _ _ fun _ _ _ finalized => (finalized_counts finalized).2.2.1
  connections := totals_over run _ _ fun _ _ _ finalized => (finalized_counts finalized).2.2.2
  status := by
    intro bucket
    rw [total_flatMap]
    refine totals_over run _ _ fun f group a finalized => ?_
    rw [(finalized_maps finalized).1, amount_total, total_flatMap]
  verdicts := by
    intro verdict
    rw [total_flatMap]
    refine totals_over run _ _ fun f group a finalized => ?_
    rw [(finalized_maps finalized).2.1, amount_total, total_flatMap]
  drops := by
    intro reason
    rw [total_flatMap]
    refine totals_over run _ _ fun f group a finalized => ?_
    rw [(finalized_maps finalized).2.2, amount_total, total_flatMap]

theorem run_pairs (run : AggregateFlows p flows result) : ByPair flows result where
  once := (run_keys run).nodup_iff.mpr (keys_once flows)
  every := by
    intro f member
    obtain ⟨acc, inside, own⟩ := key_used (p := p) member
    obtain ⟨a, listed, finalized⟩ := run_covers run inside
    exact ⟨a, listed, (finalized_acc inside finalized).trans own⟩
  identity := by
    intro a member
    obtain ⟨acc, inside, finalized⟩ := run_member run member
    obtain ⟨f, rest, group, made⟩ := acc_made inside
    rw [made] at finalized
    have listed : f ∈ flows.filter fun f => keyOf f = acc.key := group ▸ mem_cons_self
    exact ⟨f, mem_of_mem_filter listed, finalized_key finalized⟩

end Summed

section Tops

theorem fewer_lt {a b : Word} : fewer a < fewer b ↔ b.toInt < a.toInt := neg_lt_neg_iff

theorem fewer_eq {a b : Word} : fewer a = fewer b ↔ a.toInt = b.toInt := neg_inj

/-- The first ten by counts are the same however equal counts are arranged. -/
def TopFixed {σ : Type} (countOf : σ → Word) (stats : List σ) : Prop :=
  ∀ ys zs, Arrange.Arranged (fun a b => fewer (countOf a) ≤ fewer (countOf b)) stats ys →
    Arrange.Arranged (fun a b => fewer (countOf a) ≤ fewer (countOf b)) stats zs → ys.take 10 = zs.take 10

/-- The first ten are fixed exactly when the names are clear. -/
theorem top_free {α σ : Type} [AddCommMonoid α] {entries : List (String × α)} {stat : String × α → σ}
    {countOf : σ → Word} {cnt : α → Word} (counts : ∀ e, countOf (stat e) = cnt e.2)
    (apart : ∀ e ∈ WriteMap.addAll [] entries, ∀ e' ∈ WriteMap.addAll [] entries, stat e = stat e' →
      e.1 = e'.1) :
    TopFixed countOf ((WriteMap.addAll [] entries).map stat) ↔
      Clear (entries.map Prod.fst) fun k => (cnt (WriteMap.total entries k)).toInt := by
  have smaller : ∀ n : Int, (((WriteMap.addAll [] entries).map stat).filter fun s =>
      decide (n < (countOf s).toInt)).length = ((entries.map Prod.fst).dedup.filter fun k =>
        decide (n < (cnt (WriteMap.total entries k)).toInt)).length := by
    intro n
    have names : ((WriteMap.addAll [] entries).map Prod.fst).Perm (entries.map Prod.fst).dedup := by
      refine (perm_ext_iff_of_nodup (WriteMap.addAll_keyed [] entries nodup_nil)
        (nodup_dedup _)).mpr fun k => ?_
      rw [mem_dedup]
      constructor
      · intro held
        obtain ⟨e, member, rfl⟩ := mem_map.mp held
        exact (WriteMap.mem_addAll.mp member).1
      · intro listed
        exact mem_map.mpr ⟨_, WriteMap.total_mem listed, rfl⟩
    rw [← (names.filter _).length_eq, filter_map, length_map, filter_map, length_map]
    congr 1
    apply filter_congr
    intro e member
    simp only [Function.comp_apply, counts, (WriteMap.mem_addAll.mp member).2]
  rw [TopFixed, Arrange.take_free_iff 10 ((WriteMap.addAll [] entries).map stat)]
  simp only [fewer_lt, fewer_eq, smaller]
  constructor
  · intro clear a listed b listed' differ same
    have held := WriteMap.total_mem listed
    have held' := WriteMap.total_mem listed'
    have many := clear _ (mem_map_of_mem held) _ (mem_map_of_mem held')
      (fun equal => differ (apart _ held _ held' equal)) (by rw [counts, counts]; exact same)
    rwa [counts] at many
  · intro clear x member y member' differ same
    obtain ⟨e, held, rfl⟩ := mem_map.mp member
    obtain ⟨e', held', rfl⟩ := mem_map.mp member'
    have own := WriteMap.mem_addAll.mp held
    have own' := WriteMap.mem_addAll.mp held'
    rw [counts, counts, own.2, own'.2] at same
    rw [counts, own.2]
    apply clear e.1 own.1 e'.1 own'.1 _ same
    intro equal
    exact differ (congrArg stat (Prod.ext equal (own.2.trans (by rw [equal, own'.2]))))

end Tops

section Choices

theorem majority_free (group : List Flow) : (∀ vs ws, vs.Perm (WriteMap.addAll [] (group.flatMap votesOf)) →
        ws.Perm (WriteMap.addAll [] (group.flatMap votesOf)) → majority vs = majority ws) ↔
      ∀ proto other, Leads group proto → Leads group other → proto = other := by
  have ranks : Selection.Ranks (fun x held : String × Word => held.2.slt x.2) fun x => fewer x.2 := by
    intro x y
    rw [fewer_lt, BitVec.slt_iff_toInt_lt]
  unfold majority
  rw [Selection.select_free_iff ranks Prod.fst ("", 0) (WriteMap.addAll [] (group.flatMap votesOf))]
  have leads : ∀ x ∈ WriteMap.addAll [] (group.flatMap votesOf), Leads group x.1 ↔
      (0 : Word).slt x.2 = true ∧ Selection.Best (fun x held : String × Word => held.2.slt x.2)
        (WriteMap.addAll [] (group.flatMap votesOf)) x := by
    intro x member
    obtain ⟨listed, total⟩ := WriteMap.mem_addAll.mp member
    rw [BitVec.slt_iff_toInt_lt, total, Leads, and_iff_right listed]
    apply and_congr Iff.rfl
    constructor
    · intro most y member'
      obtain ⟨listed', total'⟩ := WriteMap.mem_addAll.mp member'
      have below := most y.1 listed'
      rw [Bool.eq_false_iff, ne_eq, BitVec.slt_iff_toInt_lt, total, total']
      omega
    · intro best other listed'
      have below := best _ (WriteMap.total_mem listed')
      rw [Bool.eq_false_iff, ne_eq, BitVec.slt_iff_toInt_lt, total] at below
      exact not_lt.mp below
  constructor
  · intro agree proto other first second
    have held := WriteMap.total_mem first.1
    have held' := WriteMap.total_mem second.1
    obtain ⟨takes, best⟩ := (leads _ held).mp first
    obtain ⟨takes', best'⟩ := (leads _ held').mp second
    exact agree _ held _ held' takes takes' best best'
  · intro agree x member y member' takes takes' best best'
    exact agree x.1 y.1 ((leads x member).mpr ⟨takes, best⟩) ((leads y member').mpr ⟨takes', best'⟩)

/-- A path's statistics spell its key. -/
theorem path_spelled {e : String × Word} (member : e ∈ WriteMap.addAll [] (group.flatMap pathOf)) :
    e.1 = (pathStat e).method ++ String.ofList [' '] ++ (pathStat e).path := by
  obtain ⟨listed, _⟩ := WriteMap.mem_addAll.mp member
  obtain ⟨d, inside, key⟩ := mem_map.mp listed
  obtain ⟨f, _, own⟩ := mem_flatMap.mp inside
  have spelled : e.1 = f.httpMethod ++ " " ++ f.httpPath := by
    unfold pathOf at own
    split at own
    · cases own
    · rw [← key, mem_singleton.mp own]
  obtain ⟨⟨method, path⟩, found⟩ : ∃ parts, GoText.cut ' ' e.1 = some parts := by
    apply GoText.cut_found
    rw [spelled]
    simp
  rw [pathStat, found]
  exact GoText.cut_spec found

theorem paths_apart : ∀ e ∈ WriteMap.addAll [] (group.flatMap pathOf),
    ∀ e' ∈ WriteMap.addAll [] (group.flatMap pathOf), pathStat e = pathStat e' → e.1 = e'.1 := by
  intro e member e' member' same
  rw [path_spelled member, path_spelled member', same]

theorem pathStat_count (e : String × Word) : (pathStat e).count = e.2 := by
  unfold pathStat
  split <;> rfl

theorem paths_free (group : List Flow) :
    TopFixed HTTPPathStat.count ((WriteMap.addAll [] (group.flatMap pathOf)).map pathStat) ↔
      Clear ((group.flatMap pathOf).map Prod.fst) fun path =>
        (WriteMap.total (group.flatMap pathOf) path).toInt := by
  have counts : ∀ e, (pathStat e).count = id e.2 := pathStat_count
  exact top_free counts paths_apart

theorem queries_free (group : List Flow) :
    TopFixed DNSQueryStat.count ((WriteMap.addAll [] (group.flatMap dnsOf)).map dnsStat) ↔
      Clear ((group.flatMap dnsOf).map Prod.fst) fun query =>
        (WriteMap.total (group.flatMap dnsOf) query).1.toInt :=
  top_free (fun _ => rfl) fun _ _ _ _ same => congrArg DNSQueryStat.query same

/-- The last time seen is a flow's, and none is later. -/
theorem later_spec (member : f ∈ group) : (∃ g ∈ group, group.foldl later f.lastSeen = g.lastSeen) ∧
      ∀ g ∈ group, g.lastSeen ≤ group.foldl later f.lastSeen := by
  have steps : ∀ (flows : List Flow) (seen : Int),
      (flows.foldl later seen = seen ∨ ∃ g ∈ flows, flows.foldl later seen = g.lastSeen) ∧
        seen ≤ flows.foldl later seen ∧ ∀ g ∈ flows, g.lastSeen ≤ flows.foldl later seen := by
    intro flows
    induction flows with
    | nil => simp
    | cons g rest ih =>
      intro seen
      obtain ⟨from_, more, all⟩ := ih (later seen g)
      have step : seen ≤ later seen g ∧ g.lastSeen ≤ later seen g ∧
          (later seen g = seen ∨ later seen g = g.lastSeen) := by
        unfold later
        split <;> omega
      rw [foldl_cons, exists_mem_cons_iff, forall_mem_cons]
      refine ⟨?_, by omega, by omega, all⟩
      rcases from_ with same | ⟨g', inside, same⟩
      · cases step.2.2 with
        | inl kept => exact .inl (same.trans kept)
        | inr own => exact .inr (.inl (same.trans own))
      · exact .inr (.inr ⟨g', inside, same⟩)
  obtain ⟨from_, _, all⟩ := steps group f.lastSeen
  refine ⟨?_, all⟩
  cases from_ with
  | inl same => exact ⟨f, member, same⟩
  | inr own => exact own

theorem later_same {group' : List Flow} (perm : group'.Perm group) {f f' : Flow} (member : f ∈ group)
    (member' : f' ∈ group') : group'.foldl later f'.lastSeen = group.foldl later f.lastSeen := by
  obtain ⟨⟨g, inside, from_⟩, all⟩ := later_spec member
  obtain ⟨⟨g', inside', from_'⟩, all'⟩ := later_spec member'
  have le := all g' (perm.mem_iff.mp inside')
  have le' := all' g (perm.mem_iff.mpr inside)
  omega

end Choices

section Exact
variable {p : Platform} {b : AggregatedFlow}

theorem same_symm (same : Same a b) : Same b a :=
  ⟨same.plain.symm, fun k => (same.status k).symm, fun k => (same.verdicts k).symm, fun k => (same.drops k).symm⟩

theorem same_trans {a b c : AggregatedFlow} (first : Same a b) (second : Same b c) : Same a c :=
  ⟨first.plain.trans second.plain, fun k => (first.status k).trans (second.status k),
    fun k => (first.verdicts k).trans (second.verdicts k), fun k => (first.drops k).trans (second.drops k)⟩

theorem same_identity (same : Same a b) : a.source = b.source ∧
    a.destination = b.destination ∧ a.protocol = b.protocol ∧ a.port = b.port := by
  have fields := same.plain
  rw [AggregatedFlow.mk.injEq] at fields
  exact ⟨fields.1, fields.2.1, fields.2.2.1, fields.2.2.2.1⟩

theorem same_key (same : Same a b) : keyFrom a = keyFrom b := by
  obtain ⟨source, destination, _, port⟩ := same_identity same
  rw [keyFrom, keyFrom, source, destination, port]

/-- The flows of one key come to one aggregated flow in any order. -/
def Alike (p : Platform) (group : List Flow) : Prop :=
  ∀ f rest f' rest' a a', (f :: rest).Perm group → (f' :: rest').Perm group →
    Finalized (accOf p f (f :: rest)) a → Finalized (accOf p f' (f' :: rest')) a' → Same a a'

theorem alike_of_determined (determined : Determined group) : Alike p group := by
  intro f rest f' rest' a a' perm perm' finalized finalized'
  have both := perm.trans perm'.symm
  obtain ⟨votes, paths, queries, voted, sorted, asked, rfl⟩ := finalized
  obtain ⟨votes', paths', queries', voted', sorted', asked', rfl⟩ := finalized'
  have inside : f ∈ group := perm.mem_iff.mp mem_cons_self
  have inside' : f' ∈ group := perm'.mem_iff.mp mem_cons_self
  obtain ⟨source, destination, protocol, port⟩ := determined.agree f inside f' inside'
  have entries : ∀ {α : Type} [AddCommMonoid α] (part : Flow → List (String × α)) (fs : List Flow),
      fs.Perm group → (WriteMap.addAll [] (fs.flatMap part)).Perm (WriteMap.addAll [] (group.flatMap part)) :=
    fun part fs same => WriteMap.addAll_perm (same.flatMap_right part)
  have moved : ∀ {σ : Type} {before : σ → σ → Prop} {xs ys zs : List σ}, xs.Perm ys →
      Arrange.Arranged before xs zs → Arrange.Arranged before ys zs :=
    fun same arranged => ⟨arranged.perm.trans same, arranged.ordered⟩
  have looked : ∀ (part : Flow → List (String × Word)) (k : String),
      (WriteMap.addAll [] ((f :: rest).flatMap part)).lookup k =
        (WriteMap.addAll [] ((f' :: rest').flatMap part)).lookup k := by
    intro part k
    rw [WriteMap.lookup_addAll, WriteMap.lookup_addAll]
    have names := ((both.flatMap_right part).map Prod.fst).mem_iff (a := k)
    simp only [names, WriteMap.total_perm (both.flatMap_right part)]
  have vote := (majority_free group).mpr determined.vote votes votes' (voted.trans (entries votesOf _ perm))
    (voted'.trans (entries votesOf _ perm'))
  have top := (paths_free group).mpr determined.paths paths paths'
    (moved ((entries pathOf _ perm).map pathStat) sorted) (moved ((entries pathOf _ perm').map pathStat) sorted')
  have top' := (queries_free group).mpr determined.queries queries queries'
    (moved ((entries dnsOf _ perm).map dnsStat) asked) (moved ((entries dnsOf _ perm').map dnsStat) asked')
  have seen : (f :: rest).foldl later f.lastSeen = (f' :: rest').foldl later f'.lastSeen :=
    later_same both mem_cons_self mem_cons_self
  have sums : ∀ part : Flow → Word, 0 + ((f :: rest).map part).sum = 0 + ((f' :: rest').map part).sum :=
    fun part => congrArg (0 + ·) (both.map part).sum_eq
  have count : (0 : Word) + (f :: rest).length = 0 + (f' :: rest').length :=
    congrArg (fun n : Nat => (0 : Word) + n) both.length_eq
  refine ⟨?_, looked statusOf, looked verdictOf, looked dropOf⟩
  unfold finalize
  rw [AggregatedFlow.mk.injEq]
  exact ⟨source, destination, protocol, port, count, sums _, sums _, sums _, seen, vote, sums _, sums _, rfl,
    top, top', rfl, rfl⟩

theorem determined_of_alike (alike : Alike p group) : Determined group := by
  -- two choices for the accumulator of one order come to one aggregated flow
  have choices : ∀ f rest, (f :: rest).Perm group → ∀ votes votes' paths paths' queries queries',
      votes.Perm (accOf p f (f :: rest)).l7Votes → votes'.Perm (accOf p f (f :: rest)).l7Votes →
      Arrange.Arranged (fun a b => fewer a.count ≤ fewer b.count)
        ((accOf p f (f :: rest)).pathStats.map pathStat) paths →
      Arrange.Arranged (fun a b => fewer a.count ≤ fewer b.count)
        ((accOf p f (f :: rest)).pathStats.map pathStat) paths' →
      Arrange.Arranged (fun a b => fewer a.count ≤ fewer b.count)
        ((accOf p f (f :: rest)).dnsStats.map dnsStat) queries →
      Arrange.Arranged (fun a b => fewer a.count ≤ fewer b.count)
        ((accOf p f (f :: rest)).dnsStats.map dnsStat) queries' →
      majority votes = majority votes' ∧ paths.take 10 = paths'.take 10 ∧
        queries.take 10 = queries'.take 10 := by
    intro f rest perm votes votes' paths paths' queries queries' voted voted' sorted sorted' asked asked'
    have same := alike f rest f rest _ _ perm perm ⟨votes, paths, queries, voted, sorted, asked, rfl⟩
      ⟨votes', paths', queries', voted', sorted', asked', rfl⟩
    exact ⟨congrArg AggregatedFlow.l7Protocol same.plain, congrArg AggregatedFlow.topHTTPPaths same.plain,
      congrArg AggregatedFlow.topDNSQueries same.plain⟩
  cases group with
  | nil =>
    exact ⟨fun _ member => (by cases member), fun _ _ leads => absurd leads.1 not_mem_nil,
      fun _ listed => (by cases listed), fun _ listed => (by cases listed)⟩
  | cons f rest =>
    obtain ⟨_, votes, paths, queries, voted, sorted, asked, rfl⟩ := finalized_exists (accOf p f (f :: rest))
    have fixed := choices f rest (List.Perm.refl _)
    constructor
    · intro g member g' member'
      obtain ⟨others, perm⟩ := Selection.exists_front member
      obtain ⟨others', perm'⟩ := Selection.exists_front member'
      obtain ⟨a, finalized⟩ := finalized_exists (accOf p g (g :: others))
      obtain ⟨a', finalized'⟩ := finalized_exists (accOf p g' (g' :: others'))
      have same := same_identity (alike g others g' others' a a' perm perm' finalized finalized')
      obtain ⟨_, source, destination, protocol, port⟩ := finalized_key finalized
      obtain ⟨_, source', destination', protocol', port'⟩ := finalized_key finalized'
      rw [← source, ← destination, ← protocol, ← port, ← source', ← destination', ← protocol', ← port']
      exact same
    · refine (majority_free (f :: rest)).mp fun vs ws perm perm' => ?_
      exact (fixed vs ws paths paths queries queries perm perm' sorted sorted asked asked).1
    · refine (paths_free (f :: rest)).mp fun ys zs first second => ?_
      exact (fixed votes votes ys zs queries queries voted voted first second asked asked).2.1
    · refine (queries_free (f :: rest)).mp fun ys zs first second => ?_
      exact (fixed votes votes paths paths ys zs voted voted sorted sorted first second).2.2

/-- The flows of one key in another order, before all others. -/
theorem group_first {flows group : List Flow} {k : String}
    (perm : group.Perm (flows.filter fun f => keyOf f = k)) :
    ∃ ys : List Flow, ys.Perm flows ∧ (ys.filter fun f => keyOf f = k) = group := by
  have own : ∀ f ∈ group, decide (keyOf f = k) = true := fun f member =>
    (mem_filter.mp (perm.mem_iff.mp member)).2
  refine ⟨group ++ flows.filter fun f => !decide (keyOf f = k), ?_, ?_⟩
  · exact (perm.append_right _).trans (filter_append_perm _ flows)
  · rw [filter_append, filter_eq_self.mpr own, filter_filter]
    simp

theorem alike_covers {flows ys zs : List Flow} {result result' : List AggregatedFlow}
    (alike : ∀ k, Alike p (flows.filter fun f => keyOf f = k)) (perm : ys.Perm flows) (perm' : zs.Perm flows)
    (run : AggregateFlows p ys result) (run' : AggregateFlows p zs result') :
    ∀ a ∈ result, ∃ b ∈ result', Same a b := by
  intro a member
  obtain ⟨acc, inside, finalized⟩ := run_member run member
  obtain ⟨f, rest, group, made⟩ := acc_made inside
  have same := perm.trans perm'.symm |>.filter fun f => decide (keyOf f = acc.key)
  cases group' : zs.filter fun f => decide (keyOf f = acc.key) with
  | nil =>
    rw [group', group] at same
    exact absurd (perm_nil.mp same) (cons_ne_nil f rest)
  | cons f' rest' =>
    obtain ⟨b, listed, finalized'⟩ := run_covers run' (acc_of_group group')
    rw [made] at finalized
    refine ⟨b, listed, alike acc.key f rest f' rest' a b ?_ ?_ finalized finalized'⟩
    · rw [← group]
      exact perm.filter _
    · rw [← group']
      exact perm'.filter _

theorem free_iff_alike (flows : List Flow) :
    Free p flows ↔ ∀ k, Alike p (flows.filter fun f => keyOf f = k) := by
  constructor
  · intro free k f rest f' rest' a a' perm perm' finalized finalized'
    obtain ⟨whole, run⟩ := run_exists (p := p) flows
    have found : ∀ g others b, (g :: others).Perm (flows.filter fun f => keyOf f = k) →
        Finalized (accOf p g (g :: others)) b → ∃ c ∈ whole, Same c b ∧ keyFrom c = k := by
      intro g others b same finished
      obtain ⟨ys, moved, group⟩ := group_first same
      obtain ⟨result, run', listed⟩ := run_with (acc_of_group group) finished
      obtain ⟨c, member, alike⟩ := (free ys whole result moved run run').2 b listed
      have own : keyOf g = k := of_decide_eq_true
        (mem_filter.mp (same.mem_iff.mp mem_cons_self)).2
      exact ⟨c, member, alike, (same_key alike).trans ((finalized_key finished).1.trans own)⟩
    obtain ⟨c, member, alike, key⟩ := found f rest a perm finalized
    obtain ⟨c', member', alike', key'⟩ := found f' rest' a' perm' finalized'
    obtain rfl : c = c' := inj_on_of_nodup_map (run_pairs run).once member member' (key.trans key'.symm)
    exact same_trans (same_symm alike) alike'
  · intro alike ys result result' perm run run'
    have refl := List.Perm.refl flows
    refine ⟨alike_covers alike refl perm run run', fun b member => ?_⟩
    obtain ⟨a, listed, same⟩ := alike_covers alike perm refl run' run b member
    exact ⟨a, listed, same_symm same⟩

/-- What the aggregation keeps of the flows, and when their order does not count. -/
theorem aggregation_settled (p : Platform) (flows : List Flow) :
    (∀ result, AggregateFlows p flows result → ByPair flows result ∧ Totals flows result) ∧
      (Free p flows ↔ ∀ k, Determined (flows.filter fun f => keyOf f = k)) := by
  refine ⟨fun result run => ⟨run_pairs run, run_totals run⟩, ?_⟩
  rw [free_iff_alike]
  constructor
  · exact fun alike k => determined_of_alike (alike k)
  · exact fun determined k => alike_of_determined (determined k)

end Exact

section Example

def web : Endpoint := ⟨"web", "shop", "Pod", "", fun _ => none, "", 0⟩

def dns : Endpoint := ⟨"dns", "kube-system", "Service", "", fun _ => none, "", 0⟩

def lookup_ (protocol : String) : Flow :=
  ⟨web, dns, protocol, 53, "", "", "", 0, "", 0, 0, "", 100, 200, 1, "forwarded", 0, .finite 0, .finite 0⟩

theorem truncated_truncates (f : ℚ) (_ : -0x8000000000000000 ≤ Binary64.truncate f)
    (_ : Binary64.truncate f < 0x8000000000000000) : Binary64.truncate f = Binary64.truncate f := rfl

def truncated : Platform := ⟨Binary64.truncate, truncated_truncates⟩

/-- A flow over UDP and one over TCP come to one, whose protocol is that of the first. -/
theorem protocols_merged : (∀ result, AggregateFlows truncated [lookup_ "udp", lookup_ "tcp"] result →
      result.map AggregatedFlow.protocol = ["udp"]) ∧
      ¬ Free truncated [lookup_ "udp", lookup_ "tcp"] := by
  constructor
  · rintro result ⟨accs, perm, all⟩
    have single : accumulators truncated [lookup_ "udp", lookup_ "tcp"] =
        [accOf truncated (lookup_ "udp") [lookup_ "udp", lookup_ "tcp"]] := by
      rw [accOf, ← foldl_after]
      rfl
    rw [single] at perm
    rw [perm_singleton.mp perm] at all
    obtain ⟨a, _, finalized, none, rfl⟩ := forall₂_cons_left_iff.mp all
    rw [forall₂_nil_left_iff.mp none, map_singleton, (finalized_key finalized).2.2.2.1]
    rfl
  · intro free
    have alike := determined_of_alike ((free_iff_alike _).mp free (keyOf (lookup_ "udp")))
    have protocol := (alike.agree (lookup_ "udp") (by simp) (lookup_ "tcp")
      (mem_filter.mpr ⟨by simp, decide_eq_true rfl⟩)).2.2.1
    exact absurd protocol (by decide)

end Example

end FlowAggregation
