import Mathlib.Tactic.Linarith
import Mathlib.Tactic.Positivity
import Radar.Base.Arrange
import Radar.Base.WriteMap

/- pkg/opencost/compute.go: the cost summary from OpenCost's REST API, and the one from its metrics in Prometheus. A float64
   is a rational here, and roundTo a parameter. -/
namespace Summaries
open WriteMap List

section Model

structure NamespaceCost where
  name : String
  kind : String := ""
  namespace_ : String := ""
  hourlyCost : ℚ := 0
  cpuCost : ℚ := 0
  memoryCost : ℚ := 0
  storageCost : ℚ := 0
  networkCost : ℚ := 0
  cpuUsageCost : ℚ := 0
  memoryUsageCost : ℚ := 0
  efficiency : ℚ := 0
  idleCost : ℚ := 0

structure CostSummary where
  available : Bool
  reason : String := ""
  currency : String := ""
  window : String := ""
  totalHourlyCost : ℚ := 0
  totalStorageCost : ℚ := 0
  totalNetworkCost : ℚ := 0
  totalIdleCost : ℚ := 0
  clusterEfficiency : ℚ := 0
  namespaces : List NamespaceCost := []

/-- The options, with the hours that windowHours reads off the window. -/
structure SummaryOptions where
  currency : String
  window : String
  hours : ℚ
  aggregate : String
  namespaceFilter : String

/-- The order in which a range over a map meets the entries. -/
structure Visit (α : Type) where
  order : List α → List α
  perm : ∀ entries, (order entries).Perm entries

variable (roundTo : ℚ → Nat → ℚ)

def efficiencyPct (usage alloc : ℚ) : ℚ :=
  if usage ≤ 0 ∨ alloc ≤ 0 then 0 else min (roundTo (usage / alloc * 100) 1) 100

def idleFromUsage (usage alloc : ℚ) : ℚ := if usage ≤ 0 ∨ alloc ≤ 0 then 0 else max (alloc - usage) 0

def safeRatio (num den : ℚ) : ℚ := if den ≤ 0 then 0 else num / den

def dearest (rows : List NamespaceCost) : List NamespaceCost :=
  Arrange.sortStable (fun a b => decide (b.hourlyCost < a.hourlyCost)) rows

def orDefault (text default_ : String) : String := if text = "" then default_ else text

section Rest

structure Allocation where
  cpuCost : ℚ
  ramCost : ℚ
  pvCost : ℚ
  networkCost : ℚ
  totalCost : ℚ
  totalEfficiency : ℚ
  /-- The namespace among the properties, empty where it is no string. -/
  namespace_ : String

def Allocation.allocCost (a : Allocation) : ℚ := a.cpuCost + a.ramCost

/-- An allocation met again in a later window. -/
def Allocation.merge (existing a : Allocation) : Allocation where
  cpuCost := existing.cpuCost + a.cpuCost
  ramCost := existing.ramCost + a.ramCost
  pvCost := existing.pvCost + a.pvCost
  networkCost := existing.networkCost + a.networkCost
  totalCost := existing.totalCost + a.totalCost
  totalEfficiency := if 0 < existing.allocCost + a.allocCost then
      (existing.totalEfficiency * existing.allocCost + a.totalEfficiency * a.allocCost) / (existing.allocCost + a.allocCost)
    else existing.totalEfficiency
  namespace_ := existing.namespace_

def combine (namespaceFilter : String) (combined : List (String × Allocation)) (entry : String × Option Allocation) :
    List (String × Allocation) :=
  match entry.2 with
  | none => combined
  | some a =>
    if namespaceFilter ≠ "" ∧ a.namespace_ ≠ namespaceFilter then combined
    else set combined (entry.1, ((combined.lookup entry.1).map fun existing => existing.merge a).getD a)

/-- A row with an efficiency and an allocation counts in the totals. -/
def Allocation.counts (a : Allocation) : Bool := 0 < a.totalEfficiency && 0 < a.allocCost

def Allocation.usageCost (a : Allocation) : ℚ := min a.totalEfficiency 1 * a.allocCost

def restRow (aggregate : String) (name : String) (a : Allocation) : NamespaceCost :=
  let row : NamespaceCost :=
    { name := name, kind := aggregate, cpuCost := a.cpuCost, memoryCost := a.ramCost, storageCost := a.pvCost,
      networkCost := a.networkCost, hourlyCost := a.totalCost,
      namespace_ := if aggregate ≠ "namespace" then a.namespace_ else "" }
  if a.counts then
    { row with
      cpuUsageCost := a.usageCost * safeRatio a.cpuCost a.allocCost
      memoryUsageCost := a.usageCost - a.usageCost * safeRatio a.cpuCost a.allocCost
      efficiency := efficiencyPct roundTo a.usageCost a.allocCost
      idleCost := idleFromUsage a.usageCost a.allocCost }
  else row

/-- Idle capacity, a row of its own in the response. -/
def idleRow (entry : String × Allocation) : ℚ := if entry.1 = "__idle__" then max entry.2.allocCost 0 else 0

def synthetic (name : String) : Bool := name == "__idle__" || name == "__unallocated__"

def normalize (hours : ℚ) (row : NamespaceCost) : NamespaceCost := { row with
    hourlyCost := roundTo (row.hourlyCost / hours) 4
    cpuCost := roundTo (row.cpuCost / hours) 4
    memoryCost := roundTo (row.memoryCost / hours) 4
    storageCost := roundTo (row.storageCost / hours) 4
    networkCost := roundTo (row.networkCost / hours) 4
    cpuUsageCost := roundTo (row.cpuUsageCost / hours) 4
    memoryUsageCost := roundTo (row.memoryUsageCost / hours) 4
    idleCost := roundTo (row.idleCost / hours) 4 }

/-- The response is nothing where the request failed, and otherwise its windows. -/
def computeCostSummary (opts : SummaryOptions) (visit : Visit (String × Allocation))
    (response : Option (List (List (String × Option Allocation)))) : CostSummary :=
  match response with
  | none => { available := false, reason := "query_error" }
  | some data =>
    let combined := data.flatten.foldl (combine opts.namespaceFilter) []
    if combined = [] then { available := false, reason := "no_metrics" }
    else
      let entries := visit.order combined
      let named := entries.filter fun e => !synthetic e.1
      let rows := named.map fun e => restRow roundTo (orDefault opts.aggregate "namespace") e.1 e.2
      let counted := named.filter fun e => e.2.counts
      let hours := if opts.hours ≤ 0 then 1 else opts.hours
      { available := true
        currency := orDefault opts.currency "USD"
        window := orDefault opts.window "1h"
        totalHourlyCost := roundTo ((rows.map NamespaceCost.hourlyCost).sum / hours) 4
        totalStorageCost := roundTo ((rows.map NamespaceCost.storageCost).sum / hours) 4
        totalNetworkCost := roundTo ((rows.map NamespaceCost.networkCost).sum / hours) 4
        totalIdleCost := roundTo (((entries.map idleRow).sum + (rows.map NamespaceCost.idleCost).sum) / hours) 4
        clusterEfficiency :=
          efficiencyPct roundTo (counted.map fun e => e.2.usageCost).sum (counted.map fun e => e.2.allocCost).sum
        namespaces := (dearest rows).map (normalize roundTo hours) }

end Rest

section Prom

structure Series where
  namespace_ : String
  dataPoints : List ℚ

/-- The results of the queries, nothing for an error; the primary ones with their fallbacks. -/
structure PromResults where
  cpu : Option (List Series)
  mem : Option (List Series)
  cpuUsage : Option (List Series)
  memUsage : Option (List Series)
  storage : Option (List Series)
  nodes : Option (List Series)

def mergeSeriesIntoNamespaceField (set_ : NamespaceCost → ℚ → NamespaceCost) (nsMap : List (String × NamespaceCost)) (s : Series) :
    List (String × NamespaceCost) :=
  if s.namespace_ = "" then nsMap
  else
    let nc := (nsMap.lookup s.namespace_).getD { name := s.namespace_ }
    set nsMap (s.namespace_, (s.dataPoints.getLast?.map (set_ nc)).getD nc)

/-- The last point of each namespace's last series that has one. -/
def lastValuePerLabel (result : Option (List Series)) (name : String) : ℚ :=
  ((result.getD []).foldl (fun held s =>
    if s.namespace_ = name ∧ name ≠ "" then (s.dataPoints.getLast?).getD held else held) 0)

def promRow (results : PromResults) (nc : NamespaceCost) : NamespaceCost :=
  let storage := lastValuePerLabel results.storage nc.name
  let cpuUsage := lastValuePerLabel results.cpuUsage nc.name
  let memUsage := lastValuePerLabel results.memUsage nc.name
  { nc with
    hourlyCost := nc.cpuCost + nc.memoryCost + storage
    storageCost := storage
    cpuUsageCost := cpuUsage
    memoryUsageCost := memUsage
    efficiency := efficiencyPct roundTo (cpuUsage + memUsage) (nc.cpuCost + nc.memoryCost)
    idleCost := idleFromUsage (cpuUsage + memUsage) (nc.cpuCost + nc.memoryCost) }

def roundRow (row : NamespaceCost) : NamespaceCost := { row with
    hourlyCost := roundTo row.hourlyCost 4
    cpuCost := roundTo row.cpuCost 4
    memoryCost := roundTo row.memoryCost 4
    storageCost := roundTo row.storageCost 4
    cpuUsageCost := roundTo row.cpuUsageCost 4
    memoryUsageCost := roundTo row.memoryUsageCost 4
    idleCost := roundTo row.idleCost 4 }

/-- The nodes' cost where it is known and above what the namespaces cost. -/
def raised (nodes : Option (List Series)) (total : ℚ) : ℚ :=
  match ((nodes.getD []).head?.bind fun s => s.dataPoints.head?) with
  | some nodeCost => if total < nodeCost then nodeCost else total
  | none => total

def computeCostSummaryFromProm (opts : SummaryOptions) (visit : Visit (String × NamespaceCost)) (results : PromResults) :
    CostSummary :=
  match results.cpu, results.mem with
  | some cpu, some mem =>
    if cpu = [] ∧ mem = [] then { available := false, reason := "no_metrics" }
    else
      let nsMap := mem.foldl (mergeSeriesIntoNamespaceField fun nc v => { nc with memoryCost := v })
        (cpu.foldl (mergeSeriesIntoNamespaceField fun nc v => { nc with cpuCost := v }) [])
      let rows := (visit.order nsMap).map fun e => promRow roundTo results e.2
      let totalUsage := (rows.map fun r => r.cpuUsageCost + r.memoryUsageCost).sum
      let totalAlloc := (rows.map fun r => r.cpuCost + r.memoryCost).sum
      { available := true
        currency := orDefault opts.currency "USD"
        window := orDefault opts.window "1h"
        totalHourlyCost := roundTo (raised results.nodes (rows.map NamespaceCost.hourlyCost).sum) 4
        totalStorageCost := roundTo (rows.map NamespaceCost.storageCost).sum 4
        totalIdleCost := roundTo (idleFromUsage totalUsage totalAlloc) 4
        clusterEfficiency := efficiencyPct roundTo totalUsage totalAlloc
        namespaces := (dearest rows).map (roundRow roundTo) }
  | _, _ => { available := false, reason := "query_error" }

end Prom

end Model

section Inputs

/-- A value before it is rounded. -/
def asIs (x : ℚ) (_ : Nat) : ℚ := x

/-- What one namespace costs in an hour. -/
structure Costs where
  name : String
  cpu : ℚ
  memory : ℚ
  storage : ℚ
  cpuUsage : ℚ
  memoryUsage : ℚ
  named : name ≠ ""
  real : synthetic name = false
  cpu_nonneg : 0 ≤ cpu
  memory_nonneg : 0 ≤ memory
  cpuUsage_nonneg : 0 ≤ cpuUsage
  memoryUsage_nonneg : 0 ≤ memoryUsage

def Costs.usage (c : Costs) : ℚ := c.cpuUsage + c.memoryUsage

def Costs.alloc (c : Costs) : ℚ := c.cpu + c.memory

structure Cluster where
  costs : List Costs
  distinct : (costs.map Costs.name).Nodup

def Costs.allocation (c : Costs) : Allocation where
  cpuCost := c.cpu
  ramCost := c.memory
  pvCost := c.storage
  networkCost := 0
  totalCost := c.cpu + c.memory + c.storage
  totalEfficiency := c.usage / c.alloc
  namespace_ := c.name

/-- The single bucket of an hour that carries the costs. -/
def Cluster.bucket (cluster : Cluster) : List (String × Option Allocation) :=
  cluster.costs.map fun c => (c.name, some c.allocation)

def Cluster.series (cluster : Cluster) (value : Costs → ℚ) : List Series :=
  cluster.costs.map fun c => { namespace_ := c.name, dataPoints := [value c] }

def Cluster.results (cluster : Cluster) : PromResults where
  cpu := some (cluster.series Costs.cpu)
  mem := some (cluster.series Costs.memory)
  cpuUsage := some (cluster.series Costs.cpuUsage)
  memUsage := some (cluster.series Costs.memoryUsage)
  storage := some (cluster.series Costs.storage)
  nodes := none

def hourly : SummaryOptions where
  currency := "USD"
  window := "1h"
  hours := 1
  aggregate := "namespace"
  namespaceFilter := ""

def Cluster.rest (cluster : Cluster) (visit : Visit (String × Allocation)) : CostSummary :=
  computeCostSummary asIs hourly visit (some [cluster.bucket])

def Cluster.prom (cluster : Cluster) (visit : Visit (String × NamespaceCost)) : CostSummary :=
  computeCostSummaryFromProm asIs hourly visit cluster.results

end Inputs

section Agreement

def shown (row : NamespaceCost) : String × ℚ × ℚ × ℚ := (row.name, row.hourlyCost, row.efficiency, row.idleCost)

def idleSum (summary : CostSummary) : ℚ := (summary.namespaces.map NamespaceCost.idleCost).sum

/-- The same rows, and the same totals, the idle one being the rows' sum. -/
structure Agree (rest prom : CostSummary) : Prop where
  rows : (rest.namespaces.map shown).Perm (prom.namespaces.map shown)
  restIdle : rest.totalIdleCost = idleSum rest
  promIdle : prom.totalIdleCost = idleSum prom
  efficiency : rest.clusterEfficiency = prom.clusterEfficiency

/-- Nothing is used beyond its allocation and nothing allocated lies without use; or nothing allocated lies idle where there
    is use, and all that is allocated is used up elsewhere; or nothing at all is used, or allocated. -/
def Cluster.Settled (cluster : Cluster) : Prop :=
  (∀ c ∈ cluster.costs, c.usage ≤ c.alloc ∧ (c.usage = 0 → c.alloc = 0)) ∨
  ((∃ c ∈ cluster.costs, 0 < c.usage ∧ 0 < c.alloc) ∧ (∀ c ∈ cluster.costs, 0 < c.usage → 0 < c.alloc → c.alloc ≤ c.usage) ∧
    (cluster.costs.map Costs.alloc).sum ≤ (cluster.costs.map Costs.usage).sum) ∨
  (∀ c ∈ cluster.costs, c.usage = 0) ∨ (∀ c ∈ cluster.costs, c.alloc = 0)

end Agreement

section Rational

/-- A whole: its use within the allocations, the idle rest of those, the use beyond them and the allocations without use. -/
theorem totals_agree_iff {used idle beyond without : ℚ} (used_nonneg : 0 ≤ used) (idle_nonneg : 0 ≤ idle)
    (beyond_nonneg : 0 ≤ beyond) (without_nonneg : 0 ≤ without) (paired : used = 0 → idle = 0) :
    (idle = idleFromUsage (used + beyond) (used + idle + without) ∧
      efficiencyPct asIs used (used + idle) = efficiencyPct asIs (used + beyond) (used + idle + without)) ↔
    (beyond = 0 ∧ without = 0) ∨ (0 < used ∧ idle = 0 ∧ without ≤ beyond) ∨ used + beyond = 0 ∨
      used + idle + without = 0 := by
  have noData : ∀ usage alloc : ℚ, usage ≤ 0 ∨ alloc ≤ 0 → idleFromUsage usage alloc = 0 ∧ efficiencyPct asIs usage alloc = 0 :=
    fun usage alloc none => ⟨if_pos none, if_pos none⟩
  have data : ∀ usage alloc : ℚ, 0 < usage → 0 < alloc → idleFromUsage usage alloc = max (alloc - usage) 0 ∧
      efficiencyPct asIs usage alloc = min (usage / alloc * 100) 100 := by
    intro usage alloc some some'
    have both : ¬ (usage ≤ 0 ∨ alloc ≤ 0) := by
      rintro (h | h) <;> linarith
    exact ⟨if_neg both, if_neg both⟩
  by_cases nothing : used + beyond ≤ 0 ∨ used + idle + without ≤ 0
  · have unused : used = 0 := by
      cases nothing with
      | inl h => linarith
      | inr h => linarith
    have still := paired unused
    rw [(noData _ _ nothing).1, (noData _ _ nothing).2, (noData used _ (.inl (le_of_eq unused))).2]
    constructor
    · intro _
      cases nothing with
      | inl h => exact .inr (.inr (.inl (by linarith)))
      | inr h => exact .inr (.inr (.inr (by linarith)))
    · exact fun _ => ⟨still, rfl⟩
  · rw [not_or, not_le, not_le] at nothing
    rw [(data _ _ nothing.1 nothing.2).1, (data _ _ nothing.1 nothing.2).2]
    have whole : 0 < (used + beyond) / (used + idle + without) := div_pos nothing.1 nothing.2
    rcases eq_or_lt_of_le used_nonneg with unused | some
    · have still := paired unused.symm
      rw [(noData used _ (.inl (le_of_eq unused.symm))).2]
      constructor
      · intro agree
        have positive : 0 < min ((used + beyond) / (used + idle + without) * 100) 100 := lt_min (by linarith) (by norm_num)
        linarith [agree.2]
      · intro either
        rcases either with ⟨none, -⟩ | ⟨some, -⟩ | none | none
        · linarith [nothing.1]
        · linarith
        · linarith [nothing.1]
        · linarith [nothing.2]
    · rw [(data _ _ some (by linarith)).2]
      rcases eq_or_lt_of_le idle_nonneg with still | resting
      · subst still
        rw [add_zero, div_self (ne_of_gt some)]
        constructor
        · intro agree
          have covered : used + without - (used + beyond) ≤ 0 := by
            rw [agree.1]
            exact le_max_left _ _
          exact .inr (.inl ⟨some, rfl, by linarith⟩)
        · intro either
          have covered : without ≤ beyond := by
            rcases either with ⟨none, none'⟩ | ⟨-, -, covered⟩ | none | none <;> linarith
          have full : 1 ≤ (used + beyond) / (used + without) := by
            rw [le_div_iff₀ (by linarith)]
            linarith
          constructor
          · rw [max_eq_right (by linarith)]
          · rw [min_eq_right (by norm_num), min_eq_right (by linarith)]
      · have partial_ : used / (used + idle) < 1 := by
          rw [div_lt_one (by linarith)]
          linarith
        constructor
        · rintro ⟨sameIdle, sameShare⟩
          have rest : used + idle + without - (used + beyond) = idle := by
            rcases max_choice (used + idle + without - (used + beyond)) 0 with pick | pick <;> rw [pick] at sameIdle
            · exact sameIdle.symm
            · linarith
          have share : (used + beyond) / (used + idle + without) = used / (used + idle) := by
            rw [min_eq_left (by linarith)] at sameShare
            rcases min_choice ((used + beyond) / (used + idle + without) * 100) 100 with pick | pick <;>
              rw [pick] at sameShare <;> linarith
          rw [div_eq_div_iff (by linarith) (by linarith)] at share
          -- the same idle rest is the same share of both wholes
          have product : beyond * idle = 0 := by
            have equal : beyond = without := by linarith
            subst equal
            linarith
          have none : beyond = 0 := by
            rcases mul_eq_zero.mp product with none | none
            · exact none
            · linarith
          exact .inl ⟨none, by linarith⟩
        · intro either
          have none : beyond = 0 ∧ without = 0 := by
            rcases either with none | ⟨-, still, -⟩ | none | none
            · exact none
            · linarith
            · linarith
            · linarith
          rw [none.1, none.2, add_zero, add_zero]
          constructor
          · rw [max_eq_left (by linarith)]
            linarith
          · rfl

end Rational

section Rows
variable {cluster : Cluster}

def Costs.counted (c : Costs) : Bool := 0 < c.usage && 0 < c.alloc

theorem counted_iff (c : Costs) : c.counted = true ↔ 0 < c.usage ∧ 0 < c.alloc := by
  rw [Costs.counted, Bool.and_eq_true, decide_eq_true_eq, decide_eq_true_eq]

theorem usage_nonneg (c : Costs) : 0 ≤ c.usage := add_nonneg c.cpuUsage_nonneg c.memoryUsage_nonneg

theorem alloc_nonneg (c : Costs) : 0 ≤ c.alloc := add_nonneg c.cpu_nonneg c.memory_nonneg

theorem counts_eq (c : Costs) : c.allocation.counts = c.counted := by
  have same : c.allocation.allocCost = c.alloc := rfl
  rw [Allocation.counts, Costs.counted, same]
  by_cases priced : 0 < c.alloc
  · have ratio : 0 < c.usage / c.alloc ↔ 0 < c.usage := by
      rw [lt_div_iff₀ priced, zero_mul]
    simp [Costs.allocation, ratio]
  · simp [priced]

/-- What a counted row uses within its allocation. -/
theorem usageCost_eq (c : Costs) (priced : 0 < c.alloc) : c.allocation.usageCost = min c.usage c.alloc := by
  have same : c.allocation.allocCost = c.alloc := rfl
  have rate : c.allocation.totalEfficiency = c.usage / c.alloc := rfl
  rw [Allocation.usageCost, same, rate, min_mul_of_nonneg _ _ (le_of_lt priced), one_mul, div_mul_cancel₀ _ (ne_of_gt priced)]

theorem uncounted_or (c : Costs) (counted : ¬ c.counted = true) : c.usage ≤ 0 ∨ c.alloc ≤ 0 := by
  by_contra neither
  rw [not_or, not_le, not_le] at neither
  exact counted ((counted_iff c).mpr neither)

theorem capped_idle (c : Costs) : idleFromUsage (min c.usage c.alloc) c.alloc = idleFromUsage c.usage c.alloc := by
  have floor := alloc_nonneg c
  unfold idleFromUsage
  rcases le_total c.usage c.alloc with within | beyond
  · rw [min_eq_left within]
  · rw [min_eq_right beyond, sub_self, max_self, max_eq_right (by linarith), ite_self, ite_self]

theorem capped_efficiency (c : Costs) :
    efficiencyPct asIs (min c.usage c.alloc) c.alloc = efficiencyPct asIs c.usage c.alloc := by
  unfold efficiencyPct asIs
  rcases le_total c.usage c.alloc with within | beyond
  · rw [min_eq_left within]
  · rw [min_eq_right beyond]
    by_cases priced : 0 < c.alloc
    · have full : 1 ≤ c.usage / c.alloc := by
        rw [le_div_iff₀ priced]
        linarith
      rw [if_neg (by simp [priced]), if_neg (by simp [priced, lt_of_lt_of_le priced beyond]), div_self (ne_of_gt priced),
        min_eq_right (by norm_num), min_eq_right (by linarith)]
    · rw [if_pos (.inr (not_lt.mp priced)), if_pos (.inr (not_lt.mp priced))]

/-- The row that both computations show. -/
def Costs.row (c : Costs) : String × ℚ × ℚ × ℚ :=
  (c.name, c.cpu + c.memory + c.storage, efficiencyPct asIs c.usage c.alloc, idleFromUsage c.usage c.alloc)

theorem rest_row (c : Costs) : shown (restRow asIs "namespace" c.name c.allocation) = c.row := by
  have same : c.allocation.allocCost = c.alloc := rfl
  unfold restRow
  rw [counts_eq]
  by_cases counted : c.counted = true
  · have priced : 0 < c.alloc := ((counted_iff c).mp counted).2
    rw [if_pos counted, Costs.row, ← capped_idle, ← capped_efficiency, ← usageCost_eq c priced, ← same]
    rfl
  · have none := uncounted_or c counted
    rw [if_neg counted, Costs.row, efficiencyPct, idleFromUsage, if_pos none, if_pos none]
    rfl

theorem settled_hours (row : NamespaceCost) : shown (normalize asIs 1 row) = shown row := by
  simp [shown, normalize, asIs]

/-- One entry for every namespace. -/
theorem find_name (c : Costs) (member : c ∈ cluster.costs) : (cluster.costs.find? fun d => d.name = c.name) = some c := by
  have distinct := cluster.distinct
  generalize cluster.costs = costs at member distinct
  induction costs with
  | nil => cases member
  | cons d rest ih =>
    rw [map_cons, nodup_cons] at distinct
    cases mem_cons.mp member with
    | inl here => rw [here, find?_cons_of_pos (by simp)]
    | inr later =>
      have other : d.name ≠ c.name := fun same => distinct.1 (same ▸ mem_map_of_mem later)
      rw [find?_cons_of_neg (by simpa using other), ih later distinct.2]

/-- One write for each namespace leaves its row in the map. -/
theorem updates_perm {α : Type} {step : List (String × α) → Costs → List (String × α)} (value : Option α → Costs → α)
    (writes : ∀ m c, step m c = set m (c.name, value (m.lookup c.name) c)) (row : Costs → α) {m : List (String × α)}
    (keyed : Keyed m) (settled : ∀ c ∈ cluster.costs, value (m.lookup c.name) c = row c)
    (known : ∀ k, (m.lookup k).isSome → ∃ c ∈ cluster.costs, c.name = k) :
    (cluster.costs.foldl step m).Perm (cluster.costs.map fun c => (c.name, row c)) := by
  have keys : (cluster.costs.map fun c => (c.name, row c)).map Prod.fst = cluster.costs.map Costs.name := by
    rw [map_map]
    rfl
  apply perm_of_lookups (updates_keyed writes _ keyed) (by rw [Keyed, keys]; exact cluster.distinct)
  intro k
  rw [lookup_updates writes _ cluster.distinct, lookup_map]
  cases found : cluster.costs.find? fun c => decide (c.name = k) with
  | some c =>
    have member := mem_of_find?_eq_some found
    have here : c.name = k := by simpa using find?_some found
    rw [← here]
    simp [settled c member]
  | none =>
    rw [find?_eq_none] at found
    cases held : m.lookup k with
    | none => rfl
    | some value =>
      obtain ⟨c, member, here⟩ := known k (by simp [held])
      exact absurd (by simpa using here) (found c member)

theorem rest_map : (cluster.bucket.foldl (combine "") []).Perm (cluster.costs.map fun c => (c.name, c.allocation)) := by
  rw [Cluster.bucket, foldl_map]
  apply updates_perm fun held c => (held.map fun existing => existing.merge c.allocation).getD c.allocation
  · exact fun m c => rfl
  · exact nodup_nil
  · exact fun c _ => rfl
  · exact fun k known => by cases known

/-- What a point of a namespace's series makes of its entry. -/
def entered (set_ : NamespaceCost → ℚ → NamespaceCost) (value : Costs → ℚ) (held : Option NamespaceCost) (c : Costs) :
    NamespaceCost := set_ (held.getD { name := c.name }) (value c)

theorem merge_writes (set_ : NamespaceCost → ℚ → NamespaceCost) (value : Costs → ℚ) (m : List (String × NamespaceCost)) (c : Costs) :
    mergeSeriesIntoNamespaceField set_ m { namespace_ := c.name, dataPoints := [value c] } =
      set m (c.name, entered set_ value (m.lookup c.name) c) := by
  rw [mergeSeriesIntoNamespaceField, if_neg c.named]
  rfl

theorem prom_map : ((cluster.series Costs.memory).foldl (mergeSeriesIntoNamespaceField fun nc v => { nc with memoryCost := v })
    ((cluster.series Costs.cpu).foldl (mergeSeriesIntoNamespaceField fun nc v => { nc with cpuCost := v }) [])).Perm
      (cluster.costs.map fun c => (c.name, { name := c.name, cpuCost := c.cpu, memoryCost := c.memory })) := by
  rw [Cluster.series, Cluster.series, foldl_map, foldl_map]
  have writes := merge_writes (fun nc v => { nc with cpuCost := v }) Costs.cpu
  have first := lookup_updates writes cluster.costs cluster.distinct []
  apply updates_perm _ (merge_writes (fun nc v => { nc with memoryCost := v }) Costs.memory)
  · exact updates_keyed writes _ nodup_nil
  · intro c member
    rw [first, find_name c member]
    rfl
  · intro k known
    rw [first] at known
    cases found : cluster.costs.find? fun c => decide (c.name = k) with
    | some c => exact ⟨c, mem_of_find?_eq_some found, by simpa using find?_some found⟩
    | none =>
      rw [found] at known
      cases known

theorem last_value (value : Costs → ℚ) (c : Costs) (member : c ∈ cluster.costs) :
    lastValuePerLabel (some (cluster.series value)) c.name = value c := by
  have found := find_name c member
  have distinct := cluster.distinct
  have settled : ∀ (costs : List Costs) (held : ℚ), (costs.map Costs.name).Nodup →
      costs.foldl (fun held d => if d.name = c.name ∧ c.name ≠ "" then value d else held) held =
        ((costs.find? fun d => d.name = c.name).map value).getD held := by
    intro costs
    induction costs with
    | nil => exact fun held _ => rfl
    | cons d rest ih =>
      intro held distinct
      rw [map_cons, nodup_cons] at distinct
      rw [foldl_cons, ih _ distinct.2]
      by_cases here : d.name = c.name
      · have fresh : (rest.find? fun d => d.name = c.name) = none := by
          rw [find?_eq_none]
          intro e later same
          exact distinct.1 (mem_map.mpr ⟨e, later, (of_decide_eq_true same).trans here.symm⟩)
        rw [if_pos ⟨here, c.named⟩, fresh, find?_cons_of_pos (by simpa using here)]
        rfl
      · rw [if_neg fun both => here both.1, find?_cons_of_neg (by simpa using here)]
  rw [lastValuePerLabel, Option.getD_some, Cluster.series, foldl_map]
  exact (settled cluster.costs 0 distinct).trans (by rw [found]; rfl)

/-- A namespace's row from its series. -/
def Costs.series (c : Costs) : NamespaceCost where
  name := c.name
  cpuCost := c.cpu
  memoryCost := c.memory
  hourlyCost := c.cpu + c.memory + c.storage
  storageCost := c.storage
  cpuUsageCost := c.cpuUsage
  memoryUsageCost := c.memoryUsage
  efficiency := efficiencyPct asIs c.usage c.alloc
  idleCost := idleFromUsage c.usage c.alloc

theorem prom_row (c : Costs) (member : c ∈ cluster.costs) :
    promRow asIs cluster.results { name := c.name, cpuCost := c.cpu, memoryCost := c.memory } = c.series := by
  unfold promRow
  simp only [Cluster.results, last_value _ c member]
  rfl

end Rows

section Sums
variable {cluster : Cluster}

theorem dearest_perm (rows : List NamespaceCost) : (dearest rows).Perm rows := Arrange.sort_perm _ _

/-- What a summary of these costs has of its rows and totals. -/
structure Totals (cluster : Cluster) (summary : CostSummary) (idle efficiency : ℚ) : Prop where
  rows : (summary.namespaces.map shown).Perm (cluster.costs.map Costs.row)
  idle : summary.totalIdleCost = idle
  efficiency : summary.clusterEfficiency = efficiency

theorem rest_totals (cluster : Cluster) (visit : Visit (String × Allocation)) : Totals cluster (cluster.rest visit)
    (cluster.costs.map fun c => idleFromUsage c.usage c.alloc).sum
    (efficiencyPct asIs ((cluster.costs.filter Costs.counted).map fun c => min c.usage c.alloc).sum
      ((cluster.costs.filter Costs.counted).map Costs.alloc).sum) := by
  have held := @rest_map cluster
  unfold Cluster.rest computeCostSummary
  simp only [flatten_cons, flatten_nil, append_nil, hourly]
  generalize cluster.bucket.foldl (combine "") [] = combined at held
  by_cases empty : combined = []
  · rw [empty, nil_perm, map_eq_nil_iff] at held
    rw [if_pos empty, held]
    exact ⟨held ▸ List.Perm.refl _, rfl, (if_pos (.inl le_rfl)).symm⟩
  rw [if_neg empty]
  have entries := (visit.perm combined).trans held
  generalize visit.order combined = met at entries
  have named : (met.filter fun e => !synthetic e.1).Perm (cluster.costs.map fun c => (c.name, c.allocation)) := by
    have real : (cluster.costs.map fun c => (c.name, c.allocation)).filter (fun e => !synthetic e.1) =
        cluster.costs.map fun c => (c.name, c.allocation) := by
      rw [filter_eq_self]
      intro e member
      obtain ⟨c, -, rfl⟩ := mem_map.mp member
      simp [c.real]
    exact real ▸ entries.filter fun e => !synthetic e.1
  generalize (met.filter fun e => !synthetic e.1) = real at named
  have rows : ((real.map fun e => restRow asIs "namespace" e.1 e.2).map shown).Perm (cluster.costs.map Costs.row) := by
    have each := (named.map fun e => restRow asIs "namespace" e.1 e.2).map shown
    have settled : ((cluster.costs.map fun c => (c.name, c.allocation)).map fun e => restRow asIs "namespace" e.1 e.2).map shown =
        cluster.costs.map Costs.row := by
      rw [map_map, map_map]
      exact map_congr_left fun c _ => rest_row c
    exact settled ▸ each
  have idles : (met.map idleRow).sum = 0 := by
    rw [(entries.map idleRow).sum_eq, map_map]
    apply sum_eq_zero
    intro x member
    obtain ⟨c, -, rfl⟩ := mem_map.mp member
    have other : c.name ≠ "__idle__" := by
      intro same
      have real := c.real
      rw [same] at real
      cases real
    exact if_neg other
  have counted : ∀ f : Allocation → ℚ, ((real.filter fun e => e.2.counts).map fun e => f e.2).sum =
      ((cluster.costs.filter Costs.counted).map fun c => f c.allocation).sum := by
    intro f
    have each := (named.filter fun e => e.2.counts).map fun e => f e.2
    rw [filter_map, map_map] at each
    have same : (cluster.costs.filter ((fun e : String × Allocation => e.2.counts) ∘ fun c => (c.name, c.allocation))) =
        cluster.costs.filter Costs.counted := filter_congr fun c _ => counts_eq c
    rw [each.sum_eq, same]
    rfl
  constructor
  · have sorted := ((dearest_perm (real.map fun e => restRow asIs "namespace" e.1 e.2)).map (normalize asIs 1)).map shown
    have settled : ((real.map fun e => restRow asIs "namespace" e.1 e.2).map (normalize asIs 1)).map shown =
        (real.map fun e => restRow asIs "namespace" e.1 e.2).map shown := by
      rw [map_map]
      exact map_congr_left fun row _ => settled_hours row
    rw [settled] at sorted
    exact sorted.trans rows
  · have shownIdles := (rows.map fun row => row.2.2.2).sum_eq
    rw [map_map, map_map (l := cluster.costs)] at shownIdles
    show (((met.map idleRow).sum + _) / 1 : ℚ) = _
    rw [idles, zero_add, div_one]
    exact shownIdles
  · show efficiencyPct asIs _ _ = _
    rw [counted Allocation.usageCost, counted Allocation.allocCost]
    have capped : ((cluster.costs.filter Costs.counted).map fun c => c.allocation.usageCost) =
        (cluster.costs.filter Costs.counted).map fun c => min c.usage c.alloc := by
      apply map_congr_left
      intro c member
      exact usageCost_eq c ((counted_iff c).mp (mem_filter.mp member).2).2
    rw [capped]
    rfl

theorem prom_totals (cluster : Cluster) (visit : Visit (String × NamespaceCost)) : Totals cluster (cluster.prom visit)
    (idleFromUsage (cluster.costs.map Costs.usage).sum (cluster.costs.map Costs.alloc).sum)
    (efficiencyPct asIs (cluster.costs.map Costs.usage).sum (cluster.costs.map Costs.alloc).sum) := by
  have held := @prom_map cluster
  unfold Cluster.prom computeCostSummaryFromProm
  simp only [Cluster.results]
  by_cases empty : cluster.series Costs.cpu = [] ∧ cluster.series Costs.memory = []
  · have none : cluster.costs = [] := map_eq_nil_iff.mp empty.1
    rw [if_pos empty, none]
    exact ⟨none ▸ List.Perm.refl _, (if_pos (.inl le_rfl)).symm, (if_pos (.inl le_rfl)).symm⟩
  rw [if_neg empty]
  generalize (cluster.series Costs.memory).foldl _ _ = nsMap at held
  have entries := (visit.perm nsMap).trans held
  generalize visit.order nsMap = met at entries
  have rows : (met.map fun e => promRow asIs cluster.results e.2).Perm (cluster.costs.map Costs.series) := by
    have settled : (cluster.costs.map fun c => (c.name, ({ name := c.name, cpuCost := c.cpu, memoryCost := c.memory } : NamespaceCost))).map
        (fun e => promRow asIs cluster.results e.2) = cluster.costs.map Costs.series := by
      rw [map_map]
      exact map_congr_left fun c member => prom_row c member
    exact settled ▸ entries.map fun e => promRow asIs cluster.results e.2
  have total : ∀ f : NamespaceCost → ℚ, ((met.map fun e => promRow asIs cluster.results e.2).map f).sum =
      (cluster.costs.map fun c => f c.series).sum := by
    intro f
    rw [(rows.map f).sum_eq, map_map]
    rfl
  have usage := total fun r => r.cpuUsageCost + r.memoryUsageCost
  have alloc := total fun r => r.cpuCost + r.memoryCost
  constructor
  · have sorted := ((dearest_perm (met.map fun e => promRow asIs cluster.results e.2)).trans rows).map shown
    rw [map_map (g := shown) (l := cluster.costs)] at sorted
    have same : (dearest (met.map fun e => promRow asIs cluster.results e.2)).map (roundRow asIs) =
        dearest (met.map fun e => promRow asIs cluster.results e.2) := map_id _
    show (((dearest (met.map fun e => promRow asIs cluster.results e.2)).map (roundRow asIs)).map shown).Perm _
    rw [same]
    exact sorted
  · exact congrArg₂ idleFromUsage usage alloc
  · exact congrArg₂ (efficiencyPct asIs) usage alloc

theorem filter_sum (f : Costs → ℚ) (costs : List Costs) :
    ((costs.filter Costs.counted).map f).sum = (costs.map fun c => if c.counted then f c else 0).sum := by
  induction costs with
  | nil => rfl
  | cons c rest ih =>
    cases counted : c.counted <;> simp [counted, ih]

theorem sum_floor {f : Costs → ℚ} (floor : ∀ c, 0 ≤ f c) (costs : List Costs) : 0 ≤ (costs.map f).sum := by
  apply sum_nonneg
  intro x member
  obtain ⟨c, -, rfl⟩ := mem_map.mp member
  exact floor c

theorem sum_zero_iff {f : Costs → ℚ} (floor : ∀ c, 0 ≤ f c) (costs : List Costs) :
    (costs.map f).sum = 0 ↔ ∀ c ∈ costs, f c = 0 := by
  induction costs with
  | nil => simp
  | cons c rest ih =>
    rw [map_cons, sum_cons, add_eq_zero_iff_of_nonneg (floor c) (sum_floor floor rest), ih, forall_mem_cons]

theorem sum_congr {f g : Costs → ℚ} (same : ∀ c, f c = g c) (costs : List Costs) : (costs.map f).sum = (costs.map g).sum :=
  congrArg (fun f => (costs.map f).sum) (funext same)

/-- What a namespace uses beyond its allocation, and what is allocated to it without any use. -/
def Costs.beyond (c : Costs) : ℚ := c.usage - min c.usage c.alloc

def Costs.without (c : Costs) : ℚ := if c.counted then 0 else c.alloc

def Costs.used (c : Costs) : ℚ := min c.usage c.alloc

def Costs.idle (c : Costs) : ℚ := idleFromUsage c.usage c.alloc

theorem used_nonneg (c : Costs) : 0 ≤ c.used := le_min (usage_nonneg c) (alloc_nonneg c)

theorem idle_nonneg (c : Costs) : 0 ≤ c.idle := by
  rw [Costs.idle, idleFromUsage]
  split
  · exact le_rfl
  · exact le_max_right _ _

theorem beyond_nonneg (c : Costs) : 0 ≤ c.beyond := sub_nonneg.mpr (min_le_left _ _)

theorem without_nonneg (c : Costs) : 0 ≤ c.without := by
  rw [Costs.without]
  split
  · exact le_rfl
  · exact alloc_nonneg c

theorem used_pos_iff (c : Costs) : 0 < c.used ↔ c.counted = true := by
  rw [counted_iff, Costs.used, lt_min_iff]

/-- A counted allocation is used or idle. -/
theorem counted_split (c : Costs) : (if c.counted then c.alloc else 0) = c.used + c.idle := by
  by_cases counted : c.counted = true
  · have both := (counted_iff c).mp counted
    rw [if_pos counted, Costs.used, Costs.idle, idleFromUsage, if_neg (by simp [both])]
    rcases le_total c.usage c.alloc with within | beyond
    · rw [min_eq_left within, max_eq_left (by linarith), add_sub_cancel]
    · rw [min_eq_right beyond, max_eq_right (by linarith), add_zero]
  · have none := uncounted_or c counted
    have unused : c.used = 0 := le_antisymm (not_lt.mp fun some => counted ((used_pos_iff c).mp some)) (used_nonneg c)
    rw [if_neg counted, unused, Costs.idle, idleFromUsage, if_pos none, add_zero]

theorem alloc_split (c : Costs) : c.alloc = c.used + c.idle + c.without := by
  rw [← counted_split, Costs.without]
  split
  · rw [add_zero]
  · rw [zero_add]

theorem usage_split (c : Costs) : c.usage = c.used + c.beyond := by
  rw [Costs.beyond, Costs.used, add_sub_cancel]

theorem unused (c : Costs) (counted : ¬ c.counted = true) : c.used = 0 :=
  le_antisymm (not_lt.mp fun some => counted ((used_pos_iff c).mp some)) (used_nonneg c)

theorem within_iff (c : Costs) : c.beyond = 0 ∧ c.without = 0 ↔ c.usage ≤ c.alloc ∧ (c.usage = 0 → c.alloc = 0) := by
  have within : c.beyond = 0 ↔ c.usage ≤ c.alloc := by
    rw [Costs.beyond, sub_eq_zero, eq_comm, min_eq_left_iff]
  rw [within]
  apply and_congr_right
  intro below
  by_cases counted : c.counted = true
  · have both := (counted_iff c).mp counted
    rw [Costs.without, if_pos counted]
    exact ⟨fun _ none => absurd none (ne_of_gt both.1), fun _ => rfl⟩
  · have none : c.usage = 0 ∨ c.alloc = 0 := by
      cases uncounted_or c counted with
      | inl none => exact .inl (le_antisymm none (usage_nonneg c))
      | inr none => exact .inr (le_antisymm none (alloc_nonneg c))
    rw [Costs.without, if_neg counted]
    constructor
    · exact fun none _ => none
    · intro follows
      cases none with
      | inl none => exact follows none
      | inr none => exact none

theorem idle_zero_iff (c : Costs) : c.idle = 0 ↔ (0 < c.usage → 0 < c.alloc → c.alloc ≤ c.usage) := by
  by_cases counted : c.counted = true
  · have both := (counted_iff c).mp counted
    rw [Costs.idle, idleFromUsage, if_neg (by simp [both]), max_eq_right_iff, sub_nonpos]
    exact ⟨fun beyond _ _ => beyond, fun beyond => beyond both.1 both.2⟩
  · have none := uncounted_or c counted
    rw [Costs.idle, idleFromUsage, if_pos none]
    exact ⟨fun _ some some' => absurd ((counted_iff c).mpr ⟨some, some'⟩) counted, fun _ => rfl⟩

theorem usage_sum (costs : List Costs) :
    (costs.map Costs.usage).sum = (costs.map Costs.used).sum + (costs.map Costs.beyond).sum := by
  rw [← sum_map_add]
  exact sum_congr usage_split costs

theorem alloc_sum (costs : List Costs) : (costs.map Costs.alloc).sum =
    (costs.map Costs.used).sum + (costs.map Costs.idle).sum + (costs.map Costs.without).sum := by
  rw [← sum_map_add, ← sum_map_add]
  exact sum_congr alloc_split costs

theorem countedAlloc_sum (costs : List Costs) : ((costs.filter Costs.counted).map Costs.alloc).sum =
    (costs.map Costs.used).sum + (costs.map Costs.idle).sum := by
  rw [filter_sum, ← sum_map_add]
  exact sum_congr counted_split costs

theorem countedUse_sum (costs : List Costs) :
    ((costs.filter Costs.counted).map fun c => min c.usage c.alloc).sum = (costs.map Costs.used).sum := by
  rw [filter_sum]
  apply sum_congr
  intro c
  by_cases counted : c.counted = true
  · rw [if_pos counted, Costs.used]
  · rw [if_neg counted, unused c counted]

theorem idle_unused (costs : List Costs) (none : (costs.map Costs.used).sum = 0) : (costs.map Costs.idle).sum = 0 := by
  rw [sum_zero_iff used_nonneg] at none
  rw [sum_zero_iff idle_nonneg]
  intro c member
  rw [idle_zero_iff]
  intro some some'
  exact absurd (none c member) (ne_of_gt ((used_pos_iff c).mpr ((counted_iff c).mpr ⟨some, some'⟩)))

theorem used_sum_pos (costs : List Costs) :
    0 < (costs.map Costs.used).sum ↔ ∃ c ∈ costs, 0 < c.usage ∧ 0 < c.alloc := by
  rw [lt_iff_le_and_ne, and_iff_right (sum_floor used_nonneg costs), ne_comm, Ne, sum_zero_iff used_nonneg]
  simp only [not_forall, exists_prop]
  apply exists_congr
  intro c
  rw [← counted_iff, ← used_pos_iff, lt_iff_le_and_ne, and_iff_right (used_nonneg c), ne_comm]

/-- The sums settle just as the rows do. -/
theorem settled_iff (cluster : Cluster) : cluster.Settled ↔
    ((cluster.costs.map Costs.beyond).sum = 0 ∧ (cluster.costs.map Costs.without).sum = 0) ∨
      (0 < (cluster.costs.map Costs.used).sum ∧ (cluster.costs.map Costs.idle).sum = 0 ∧
        (cluster.costs.map Costs.without).sum ≤ (cluster.costs.map Costs.beyond).sum) ∨
      (cluster.costs.map Costs.usage).sum = 0 ∨ (cluster.costs.map Costs.alloc).sum = 0 := by
  have within : (∀ c ∈ cluster.costs, c.beyond = 0) ∧ (∀ c ∈ cluster.costs, c.without = 0) ↔
      ∀ c ∈ cluster.costs, c.usage ≤ c.alloc ∧ (c.usage = 0 → c.alloc = 0) := by
    rw [← forall₂_and]
    exact forall₂_congr fun c _ => within_iff c
  have still : (cluster.costs.map Costs.idle).sum = 0 ↔
      ∀ c ∈ cluster.costs, 0 < c.usage → 0 < c.alloc → c.alloc ≤ c.usage := by
    rw [sum_zero_iff idle_nonneg]
    exact forall₂_congr fun c _ => idle_zero_iff c
  rw [Cluster.Settled, sum_zero_iff beyond_nonneg, sum_zero_iff without_nonneg, sum_zero_iff usage_nonneg,
    sum_zero_iff alloc_nonneg, within, used_sum_pos, ← still]
  apply or_congr_right
  apply or_congr_left
  apply and_congr_right
  intro _
  apply and_congr_right
  intro none
  rw [usage_sum, alloc_sum, none, add_zero, add_le_add_iff_left]

theorem idleSum_eq {cluster : Cluster} {summary : CostSummary} {idle efficiency : ℚ}
    (totals : Totals cluster summary idle efficiency) : idleSum summary = (cluster.costs.map Costs.idle).sum := by
  have same := (totals.rows.map fun row => row.2.2.2).sum_eq
  rw [map_map, map_map] at same
  exact same

end Sums

section Conclusion

/-- The two summaries agree on the rows always, and on the totals just where those are settled. -/
theorem summaries_agree_iff (cluster : Cluster) (visit : Visit (String × Allocation)) (visit' : Visit (String × NamespaceCost)) :
    Agree (cluster.rest visit) (cluster.prom visit') ↔ cluster.Settled := by
  have rest := rest_totals cluster visit
  have prom := prom_totals cluster visit'
  have agree : Agree (cluster.rest visit) (cluster.prom visit') ↔
      ((cluster.costs.map Costs.idle).sum = idleFromUsage (cluster.costs.map Costs.usage).sum (cluster.costs.map Costs.alloc).sum ∧
        efficiencyPct asIs (cluster.costs.map Costs.used).sum ((cluster.costs.filter Costs.counted).map Costs.alloc).sum =
          efficiencyPct asIs (cluster.costs.map Costs.usage).sum (cluster.costs.map Costs.alloc).sum) := by
    rw [← countedUse_sum, ← rest.efficiency, ← prom.efficiency, ← prom.idle, ← idleSum_eq prom]
    constructor
    · exact fun a => ⟨a.promIdle.symm, a.efficiency⟩
    · exact fun both => ⟨rest.rows.trans prom.rows.symm, rest.idle.trans (idleSum_eq rest).symm, both.1.symm, both.2⟩
  have totals := totals_agree_iff (sum_floor used_nonneg cluster.costs) (sum_floor idle_nonneg cluster.costs)
    (sum_floor beyond_nonneg cluster.costs) (sum_floor without_nonneg cluster.costs) (idle_unused cluster.costs)
  rw [← usage_sum, ← alloc_sum, ← countedAlloc_sum] at totals
  rw [agree, totals, settled_iff]

theorem shop_named : "shop" ≠ "" := by decide

/-- A namespace without use beside one that is half used: the sums count its allocation as idle, the rows do not. -/
def quiet : Cluster where
  costs := [⟨"shop", 2, 2, 0, 1, 1, shop_named, by decide, by norm_num, by norm_num, by norm_num, by norm_num⟩,
    ⟨"spare", 3, 1, 0, 0, 0, by decide, by decide, by norm_num, by norm_num, by norm_num, by norm_num⟩]
  distinct := by decide

theorem quiet_disagrees : ¬ Agree (quiet.rest ⟨id, fun _ => List.Perm.refl _⟩) (quiet.prom ⟨id, fun _ => List.Perm.refl _⟩) := by
  intro agree
  have total : (quiet.prom ⟨id, fun _ => List.Perm.refl _⟩).totalIdleCost = 6 := by
    rw [(prom_totals quiet _).idle]
    norm_num [quiet, Costs.usage, Costs.alloc, idleFromUsage]
  have rows : idleSum (quiet.prom ⟨id, fun _ => List.Perm.refl _⟩) = 2 := by
    rw [idleSum_eq (prom_totals quiet _)]
    norm_num [quiet, Costs.usage, Costs.alloc, Costs.idle, idleFromUsage]
  have sum := agree.promIdle
  rw [total, rows] at sum
  norm_num at sum

end Conclusion

end Summaries
