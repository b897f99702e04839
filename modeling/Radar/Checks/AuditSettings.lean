import Mathlib.Data.Prod.Lex
import Mathlib.Data.String.Basic
import Radar.Base.Arrange
import Radar.Checks.AuditChecks

/- pkg/audit/helpers.go: the findings by resource, and a scan under the settings of its reader. -/
namespace AuditChecks
open Arrange List

section Model

structure ResourceGroup where
  group : String
  kind : String
  namespace_ : String
  name : String
  findings : List Finding

def ResourceGroup.key (g : ResourceGroup) : String := resourceKey g.group g.kind g.namespace_ g.name

def indexByResource : KeyedFold.Folding Finding ResourceGroup String where
  keyOf := fun f => f.pair.1
  key := ResourceGroup.key
  start := fun f => ⟨f.group, f.kind, f.namespace_, f.name, []⟩
  add := fun g f => { g with findings := g.findings ++ [f] }
  key_start := fun _ => rfl
  key_add := fun _ _ => rfl

/-- The warnings and the dangers. -/
def ResourceGroup.number (g : ResourceGroup) : Nat × Nat := (g.findings.map Finding.weight).sum

def lessGroup (g h : ResourceGroup) : Bool :=
  if g.number.2 ≠ h.number.2 then h.number.2 < g.number.2
  else if g.number.1 ≠ h.number.1 then h.number.1 < g.number.1
  else g.key < h.key

def groupByResource (findings : List Finding) : List ResourceGroup :=
  sortStable lessGroup (indexByResource.gather findings)

variable (ignoredNamespaces disabledChecks : List String)

def matchesIgnoredNS (ns : String) : Bool := ignoredNamespaces.any fun p =>
  let p := p.toList
  if p.head? = some '*' ∨ p.getLast? = some '*' then
    (p.getLast? = some '*' && p.dropLast.isPrefixOf ns.toList) ||
      (p.head? = some '*' && p.tail.isSuffixOf ns.toList)
  else p = ns.toList

def summarize (findings : List Finding) : ScanResults :=
  let categories := WriteMap.addAll [("Security", 0), ("Reliability", 0), ("Efficiency", 0)]
    (findings.map fun f => (f.category, f.weight))
  { findings, categories, total := (categories.map Prod.snd).sum }

def shown (f : Finding) : Bool :=
  !(matchesIgnoredNS ignoredNamespaces f.namespace_ || disabledChecks.contains f.checkID)

def applySettings (results : ScanResults) : ScanResults :=
  if ignoredNamespaces = [] ∧ disabledChecks = [] then results
  else summarize (results.findings.filter (shown ignoredNamespaces disabledChecks))

end Model

section Groups

def groupRank (g : ResourceGroup) : ℕᵒᵈ ×ₗ ℕᵒᵈ ×ₗ String :=
  toLex (OrderDual.toDual g.number.2, toLex (OrderDual.toDual g.number.1, g.key))

theorem group_ranks : Selection.Ranks lessGroup groupRank := by
  intro g h
  simp only [lessGroup, groupRank, Prod.Lex.toLex_lt_toLex]
  by_cases danger : g.number.2 = h.number.2
  · by_cases warning : g.number.1 = h.number.1
    · simp [danger, warning]
    · simp [danger, warning]
  · simp [danger]

/-- Whatever order the map is read in and however the sort treats ties, there is one result; a group holds the findings
    of its resource, and every finding is in one group. -/
theorem grouped_once (findings : List Finding) :
    (∀ groups, Arranged (fun g h => lessGroup h g = false) (indexByResource.gather findings) groups ↔
      groups = groupByResource findings) ∧
    (∀ g ∈ groupByResource findings, g.findings = findings.filter fun f => f.pair.1 = g.key) ∧
    Partition.Grouped (fun f g => f.pair.1 = g.pair.1) findings
      ((groupByResource findings).map ResourceGroup.findings) := by
  have perm := sort_perm lessGroup (indexByResource.gather findings)
  have before (g h : ResourceGroup) : lessGroup h g = false ↔ groupRank g ≤ groupRank h :=
    Selection.ranks_not group_ranks h g
  have own : Arranged (fun g h => lessGroup h g = false) _ (groupByResource findings) :=
    ⟨perm, (sort_ordered group_ranks _).imp (before _ _).mpr⟩
  refine ⟨fun groups => ⟨fun arranged => ?_, fun same => same ▸ own⟩, fun g member => ?_, ?_⟩
  · refine arranged_unique ?_ arranged own
    intro g held h held' first second
    have same := le_antisymm ((before _ _).mp first) ((before _ _).mp second)
    refine inj_on_of_nodup_map (KeyedFold.gather_spec (F := indexByResource) findings).1 held held' ?_
    simp only [groupRank, toLex_inj, Prod.mk.injEq] at same
    exact same.2.2
  · exact KeyedFold.gather_members (F := indexByResource) (fun _ => rfl) (fun _ _ => rfl) (perm.mem_iff.mp member)
  · exact (KeyedFold.gather_partition (F := indexByResource) (fun _ => rfl) (fun _ _ => rfl) findings).perm
      (fun _ _ => Eq.symm) (perm.map _)

end Groups

section Settings

theorem shown_both (ns ns' cs cs' : List String) :
    shown (ns ++ ns') (cs ++ cs') = fun f => shown ns' cs' f && shown ns cs f := by
  funext f
  simp only [shown, matchesIgnoredNS, any_append, contains_eq_mem, mem_append]
  grind

theorem apply_eq (ns cs : List String) (findings : List Finding) :
    applySettings ns cs (summarize findings) = summarize (findings.filter (shown ns cs)) := by
  unfold applySettings
  split
  next none_ =>
    have all : shown ns cs = fun _ => true := by
      funext f
      simp [shown, matchesIgnoredNS, none_]
    rw [all, filter_true]
  next => rfl

/-- A scan under settings counts what they leave, and settings that follow others are as good as both at once. -/
theorem settings_applied (emitted : List Finding) (ns cs ns' cs' : List String) :
    ∃ r, applySettings ns cs (buildResults emitted) = r ∧ r.total = counts r.findings ∧
      (∀ f, f ∈ r.findings ↔
        f ∈ (buildResults emitted).findings ∧ matchesIgnoredNS ns f.namespace_ = false ∧ f.checkID ∉ cs) ∧
      applySettings ns' cs' r = applySettings (ns ++ ns') (cs ++ cs') (buildResults emitted) := by
  have built : buildResults emitted = summarize (buildResults emitted).findings := rfl
  refine ⟨_, rfl, ?_⟩
  rw [built, apply_eq, apply_eq, apply_eq, filter_filter]
  refine ⟨?_, fun f => ?_, by rw [shown_both]⟩
  · refine (WriteMap.sum_addAll (by simp [WriteMap.Keyed]) _).trans ?_
    rw [← sum_weights, map_map]
    simp [Function.comp_def, summarize]
  · simp [summarize, shown]

end Settings

end AuditChecks
