import Radar.GitOps.TreeShape

/- pkg/gitops/tree/builder.go: which topology node a managed resource is shown with, over any
   topology, kinds of the same name in several groups included. -/
namespace LiveMatching
open GitOpsTree GoText
variable {n : Topology.Node}

/-- The writes to the map of topology nodes by reference, each with its group and without. -/
def writes (nodes : List Topology.Node) : List (String × Topology.Node) := nodes.flatMap fun n =>
    [(refKey (refFromTopologyNode n), n), (refKey (refFromTopologyNode n).groupless, n)]

/-- The topology node that a managed resource is matched with. -/
def matched (nodes : List Topology.Node) (ref : ResourceRef) : Option Topology.Node :=
  (lookupLast (writes nodes) (refKey ref)).or (lookupLast (writes nodes) (refKey ref.groupless))

/-- A topology and the API group that each of its nodes belongs to, which the node's data may leave
   out but does not contradict. -/
structure LiveNodes where
  nodes : List Topology.Node
  apiGroup : Topology.Node → String
  told : ∀ n ∈ nodes, (refFromTopologyNode n).group = "" ∨ (refFromTopologyNode n).group = apiGroup n

/-- What tells managed resources apart: group, kind, namespace and name. -/
def identityOf (ref : ResourceRef) : String × String × String × String := (ref.group, resourceOf ref)

structure ManagedRefs where
  refs : List ResourceRef
  distinct : refs.Pairwise fun r s => identityOf r ≠ identityOf s

/-- Every managed resource is shown with a node of its own group, and no node is shown for two. -/
structure OwnLiveData (live : LiveNodes) (managed : ManagedRefs) : Prop where
  own_group : ∀ ref ∈ managed.refs, ∀ n, matched live.nodes ref = some n → live.apiGroup n = ref.group
  once : managed.refs.Pairwise fun r s => ∀ n, matched live.nodes r = some n → matched live.nodes s ≠ some n

section Lookup
variable {nodes : List Topology.Node} {ref : ResourceRef}

/-- The node has the resource's kind, namespace and name. -/
def SameName (ref : ResourceRef) (n : Topology.Node) : Prop :=
  resourceOf (refFromTopologyNode n) = resourceOf ref

/-- The node says in its data that it is of the resource's group. -/
def TellsGroup (ref : ResourceRef) (n : Topology.Node) : Prop :=
  ref.group ≠ "" ∧ (refFromTopologyNode n).group = ref.group ∧ SameName ref n

instance (ref : ResourceRef) (n : Topology.Node) : Decidable (SameName ref n) :=
  inferInstanceAs (Decidable (resourceOf (refFromTopologyNode n) = resourceOf ref))

instance (ref : ResourceRef) (n : Topology.Node) : Decidable (TellsGroup ref n) :=
  inferInstanceAs (Decidable (_ ∧ _ ∧ _))

/-- The last node that satisfies a predicate. -/
def last (p : Topology.Node → Bool) (nodes : List Topology.Node) : Option Topology.Node :=
  (nodes.filter p).getLast?

theorem lookup_last (key : String) : lookupLast (writes nodes) key =
    last (fun n => refKey (refFromTopologyNode n) == key ||
      refKey (refFromTopologyNode n).groupless == key) nodes := by
  induction nodes using List.reverseRecOn with
  | nil => rfl
  | append_singleton before n ih =>
    have split : writes (before ++ [n]) = writes before ++
        [(refKey (refFromTopologyNode n), n), (refKey (refFromTopologyNode n).groupless, n)] := by
      rw [writes, writes, List.flatMap_append, List.flatMap_singleton]
    rw [lookupLast] at ih
    rw [lookupLast, split, last, List.filter_append, List.reverse_append]
    by_cases without : refKey (refFromTopologyNode n).groupless = key
    · simp [without]
    · by_cases exact_ : refKey (refFromTopologyNode n) = key
      · simp [without, exact_]
      · simp [without, exact_, ih, last]

theorem by_group : lookupLast (writes nodes) (refKey ref.groupless) =
    last (fun n => decide (SameName ref n)) nodes := by
  rw [lookup_last]
  apply congrArg fun picks => last picks nodes
  funext n
  rw [Bool.eq_iff_iff, Bool.or_eq_true, beq_iff_eq, beq_iff_eq, ref_key_eq_iff, ref_key_eq_iff,
    decide_eq_true_iff]
  constructor
  · rintro (⟨_, same⟩ | ⟨_, same⟩)
    · exact same
    · exact same
  · intro same
    exact Or.inr ⟨rfl, same⟩

theorem by_ref (grouped : ref.group ≠ "") : lookupLast (writes nodes) (refKey ref) =
    last (fun n => decide (TellsGroup ref n)) nodes := by
  rw [lookup_last]
  apply congrArg fun picks => last picks nodes
  funext n
  rw [Bool.eq_iff_iff, Bool.or_eq_true, beq_iff_eq, beq_iff_eq, ref_key_eq_iff, ref_key_eq_iff,
    decide_eq_true_iff]
  constructor
  · rintro (⟨group, same⟩ | ⟨group, _⟩)
    · exact ⟨grouped, group, same⟩
    · exact absurd group.symm grouped
  · rintro ⟨_, group, same⟩
    exact Or.inl ⟨group, same⟩

theorem last_some {p : Topology.Node → Bool} (found : last p nodes = some n) : n ∈ nodes ∧ p n = true :=
  List.mem_filter.mp (List.mem_of_getLast? found)

theorem last_none {p : Topology.Node → Bool} : last p nodes = none ↔ ∀ n ∈ nodes, ¬ p n = true := by
  rw [last, List.getLast?_eq_none_iff, List.filter_eq_nil_iff]

/-- A resource is matched with the last node that tells its group, else with the last one of its
   kind, namespace and name, whatever its group. -/
theorem matched_eq (nodes : List Topology.Node) (ref : ResourceRef) : matched nodes ref =
    (last (fun n => decide (TellsGroup ref n)) nodes).or
      (last (fun n => decide (SameName ref n)) nodes) := by
  rw [matched, by_group]
  by_cases grouped : ref.group = ""
  · have none_ : last (fun n => decide (TellsGroup ref n)) nodes = none := by
      rw [last_none]
      intro n _ tells
      exact (of_decide_eq_true tells).1 grouped
    have key : refKey ref = refKey ref.groupless := ref_key_eq_iff.mpr ⟨grouped, rfl⟩
    rw [none_, key, by_group, Option.none_or, Option.or_self]
  · rw [by_ref grouped]

theorem matched_named (found : matched nodes ref = some n) : n ∈ nodes ∧ SameName ref n := by
  rw [matched_eq] at found
  cases Option.or_eq_some_iff.mp found with
  | inl first =>
    obtain ⟨member, tells⟩ := last_some first
    exact ⟨member, (of_decide_eq_true tells).2.2⟩
  | inr second =>
    obtain ⟨member, named⟩ := last_some second.2
    exact ⟨member, of_decide_eq_true named⟩

end Lookup

section Exact
variable (live : LiveNodes) (managed : ManagedRefs)

/-- Some node tells the resource's group, or the last one of its kind, namespace and name is of it. -/
def RightGroup (ref : ResourceRef) : Prop := (∃ n ∈ live.nodes, TellsGroup ref n) ∨
    ∀ n, last (fun n => decide (SameName ref n)) live.nodes = some n → live.apiGroup n = ref.group

theorem right_group_iff (ref : ResourceRef) :
    (∀ n, matched live.nodes ref = some n → live.apiGroup n = ref.group) ↔ RightGroup live ref := by
  rw [matched_eq, RightGroup]
  cases first : last (fun n => decide (TellsGroup ref n)) live.nodes with
  | none =>
    have silent : ¬ ∃ n ∈ live.nodes, TellsGroup ref n := by
      rintro ⟨n, member, tells⟩
      exact last_none.mp first n member (decide_eq_true tells)
    rw [Option.none_or, or_iff_right silent]
  | some n =>
    obtain ⟨member, decided⟩ := last_some first
    have tells := of_decide_eq_true decided
    have own : live.apiGroup n = ref.group := by
      cases live.told n member with
      | inl empty => exact absurd (tells.2.1.symm.trans empty) tells.1
      | inr same => exact same.symm.trans tells.2.1
    rw [Option.some_or]
    constructor
    · intro _
      exact Or.inl ⟨n, member, tells⟩
    · intro _ other same
      rw [← Option.some.inj same]
      exact own

/-- Two managed resources that share a node are of one kind, namespace and name. -/
theorem shared_names {r s : ResourceRef}
    (found : matched live.nodes r = some n) (found' : matched live.nodes s = some n) :
    resourceOf r = resourceOf s :=
  (matched_named found).2.symm.trans (matched_named found').2

/-- Live data is a resource's own exactly when every managed resource has a node that tells its group,
   or the last node of its kind, namespace and name happens to be of that group. -/
theorem own_live_iff : OwnLiveData live managed ↔ ∀ ref ∈ managed.refs, RightGroup live ref := by
  constructor
  · intro own ref member
    exact (right_group_iff live ref).mp (own.own_group ref member)
  · intro right
    have groups : ∀ ref ∈ managed.refs, ∀ n, matched live.nodes ref = some n →
        live.apiGroup n = ref.group :=
      fun ref member => (right_group_iff live ref).mpr (right ref member)
    refine ⟨groups, managed.distinct.imp_of_mem ?_⟩
    intro r s first second differ n found found'
    have same := (groups r first n found).symm.trans (groups s second n found')
    exact differ (Prod.ext same (shared_names live found found'))

end Exact

section Knative

/-- A Knative Service called web and the core Service that Knative makes for it. -/
def knativeWeb : Topology.Node := ⟨"knativeservice/shop/web", "KnativeService", "web", .unhealthy,
    some [("namespace", .text "shop"), ("apiVersion", .text "serving.knative.dev/v1")]⟩

def coreWeb : Topology.Node :=
  ⟨"service/shop/web", "Service", "web", .healthy, some [("namespace", .text "shop")]⟩

def webNodes : LiveNodes where
  nodes := [coreWeb, knativeWeb]
  apiGroup := fun n => if n.kind = "KnativeService" then "serving.knative.dev" else ""
  told := by decide

def webRefs : ManagedRefs where
  refs := [⟨"serving.knative.dev", "Service", "shop", "web", ""⟩, ⟨"", "Service", "shop", "web", ""⟩]
  distinct := by decide

/-- Both managed resources are shown with the core Service's node. -/
theorem knative_shows_core : (∀ ref ∈ webRefs.refs, matched webNodes.nodes ref = some coreWeb) ∧
    ¬ OwnLiveData webNodes webRefs := by
  have shown : ∀ ref ∈ webRefs.refs, matched webNodes.nodes ref = some coreWeb := by decide +kernel
  refine ⟨shown, fun own => ?_⟩
  have group := own.own_group _ List.mem_cons_self coreWeb (shown _ List.mem_cons_self)
  exact absurd group (by decide)

end Knative

end LiveMatching
