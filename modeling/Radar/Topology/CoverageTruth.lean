import Radar.Topology.PolicyCoverage

/- The badges of the workloads against the policies that select them. -/
namespace PolicyCoverage
open Topology NodeRef LabelSelector GoText List
variable {cnp : CiliumNetworkPolicy}

/-- The selector's own reading: every label is there, with its value, and every expression holds. -/
def EndpointSelector.matches_ (s : EndpointSelector) (labels : Labels) : Bool :=
  (s.matchLabels.all fun pair => pair.2.isSome && labels pair.1 == pair.2) &&
    s.matchExpressions.all fun r => r.holds labels

def CiliumNetworkPolicy.selects (cnp : CiliumNetworkPolicy) (labels : Labels) : Prop :=
  ∃ sel, cnp.endpointSelector = some sel ∧ sel.matches_ labels = true

/-- A network policy of the workload's namespace selects its pods. -/
def Covered (c : Cluster) (w : Workload) : Prop :=
  (∃ np ∈ c.netpols, np.metadata.namespace_ = w.metadata.namespace_ ∧
    np.podSelector.matches_ w.templateLabels = true) ∨
  ∃ cnp ∈ c.cnps, cnp.metadata.namespace_ = w.metadata.namespace_ ∧ cnp.selects w.templateLabels

/-- The workload's badge, where it has a node, says whether it is covered. -/
def Truthful (c : Cluster) (opts : BuildOptions) (kind : WorkloadKind) (w : Workload) : Prop :=
  ∀ n ∈ (buildResourcesTopology c opts).nodes, n.id = workloadID kind w →
    (dataString n "policyStatus" = "protected" ↔ Covered c w)

section Ids
variable {c : Cluster} {opts : BuildOptions} {kind kind' : WorkloadKind} {w w' : Workload}

theorem node_id_inj {prefix_ prefix' : String} {a b : ObjectMeta} (plain : '/' ∉ prefix_.toList)
    (plain' : '/' ∉ prefix'.toList) (same : nodeID prefix_ a = nodeID prefix' b) :
    prefix_ = prefix' ∧ a.namespace_ = b.namespace_ ∧ a.name = b.name := by
  have chars := congrArg String.toList same
  simp only [nodeID, String.toList_append, append_assoc] at chars
  obtain ⟨prefixes, rest⟩ := sep_inj plain plain' chars
  obtain ⟨namespaces, names⟩ := sep_inj a.slashless b.slashless rest
  exact ⟨String.toList_inj.mp prefixes, String.toList_inj.mp namespaces, String.toList_inj.mp names⟩

theorem workload_id_inj (member : w ∈ c.workloads kind) (member' : w' ∈ c.workloads kind')
    (same : workloadID kind w = workloadID kind' w') : kind = kind' ∧ w = w' := by
  have slashless (k : WorkloadKind) : '/' ∉ k.idPrefix.toList := by cases k <;> decide
  obtain ⟨prefixes, namespaces, names⟩ := node_id_inj (slashless kind) (slashless kind') same
  have kinds : kind = kind' := by
    cases kind <;> cases kind' <;> first | rfl | exact absurd prefixes (by decide)
  subst kinds
  exact ⟨rfl, c.distinct kind w member w' member' namespaces names⟩

theorem mem_kinds (kind : WorkloadKind) : kind ∈ kinds := by cases kind <;> decide

/-- The ids picked from the workloads are those of the workloads picked. -/
theorem mem_picked_ids (member : w ∈ c.workloads kind) (pick : WorkloadKind → Workload → Bool) :
    workloadID kind w ∈ (kinds.flatMap fun k => ((c.workloads k).filter (pick k)).map (workloadID k)) ↔
      pick kind w = true := by
  simp only [mem_flatMap, mem_map, mem_filter]
  constructor
  · rintro ⟨k, _, v, ⟨listed, picked⟩, same⟩
    obtain ⟨rfl, rfl⟩ := workload_id_inj listed member same
    exact picked
  · intro picked
    exact ⟨kind, mem_kinds kind, w, ⟨member, picked⟩, rfl⟩

end Ids

section Edges
variable {c : Cluster} {opts : BuildOptions} {kind : WorkloadKind} {w : Workload}

/-- Some edge protects the node. -/
def Hits (edges : List Edge) (id : String) : Prop := ∃ e ∈ edges, e.type = .protects ∧ e.target = id

theorem hits_append {edges more : List Edge} {id : String} :
    Hits (edges ++ more) id ↔ Hits edges id ∨ Hits more id := by
  unfold Hits
  simp only [mem_append, or_and_right, exists_or]

theorem hits_flat_map {α : Type} {xs : List α} {f : α → List Edge} {id : String} :
    Hits (xs.flatMap f) id ↔ ∃ x ∈ xs, Hits (f x) id := by
  unfold Hits
  simp only [mem_flatMap]
  constructor
  · rintro ⟨e, ⟨x, member, own⟩, rest⟩
    exact ⟨x, member, e, own, rest⟩
  · rintro ⟨x, member, e, own, rest⟩
    exact ⟨e, ⟨x, member, own⟩, rest⟩

theorem hits_nothing {id : String} : ¬ Hits [] id := by
  rintro ⟨e, member, _⟩
  exact absurd member not_mem_nil

/-- A policy whose namespace is shown reaches the workloads of it that it selects. -/
theorem hits_protects (member : w ∈ c.workloads kind) {source ns : String} {selects : Labels → Bool}
    (shown : opts.matchesNamespaceFilter ns = true) :
    Hits (protectsEdges c opts source ns selects) (workloadID kind w) ↔
      ns = w.metadata.namespace_ ∧ selects w.templateLabels = true := by
  have targets : Hits (protectsEdges c opts source ns selects) (workloadID kind w) ↔
      workloadID kind w ∈ (kinds.flatMap fun k => ((c.workloads k).filter fun w =>
        decide (w.metadata.namespace_ = ns ∧ selects w.templateLabels ∧
          (k ≠ .daemonSet → opts.matchesNamespaceFilter w.metadata.namespace_))).map
            (workloadID k)) := by
    simp only [Hits, protectsEdges, mem_flatMap, mem_map]
    constructor
    · rintro ⟨e, ⟨k, listed, v, kept, rfl⟩, _, same⟩
      exact ⟨k, listed, v, kept, same⟩
    · rintro ⟨k, listed, v, kept, same⟩
      exact ⟨_, ⟨k, listed, v, kept, rfl⟩, rfl, same⟩
  rw [targets, mem_picked_ids member fun k w => decide (w.metadata.namespace_ = ns ∧
    selects w.templateLabels ∧ (k ≠ .daemonSet → opts.matchesNamespaceFilter w.metadata.namespace_)),
    decide_eq_true_eq]
  constructor
  · rintro ⟨home, selected, _⟩
    exact ⟨home.symm, selected⟩
  · rintro ⟨rfl, selected⟩
    exact ⟨rfl, selected, fun _ => shown⟩

theorem hits_pdb (member : w ∈ c.workloads kind) {pdb : PodDisruptionBudget}
    (shown : opts.matchesNamespaceFilter pdb.metadata.namespace_ = true) :
    Hits (pdbEdges c opts pdb) (workloadID kind w) ↔ pdb.metadata.namespace_ = w.metadata.namespace_ ∧
        ∃ sel, pdb.selector = some sel ∧ sel.matches_ w.templateLabels = true := by
  unfold pdbEdges
  split
  next none => simp [none, hits_nothing]
  next sel asked =>
    rw [hits_protects member shown, asked]
    simp

theorem hits_netpol (member : w ∈ c.workloads kind) {np : NetworkPolicy}
    (shown : opts.matchesNamespaceFilter np.metadata.namespace_ = true) :
    Hits (netpolEdges c opts np) (workloadID kind w) ↔ np.podSelector.empty = false ∧
      np.metadata.namespace_ = w.metadata.namespace_ ∧ np.podSelector.matches_ w.templateLabels = true := by
  unfold netpolEdges
  split
  next empty => simp [empty, hits_nothing]
  next asks =>
    rw [hits_protects member shown]
    simp [asks]

theorem hits_cnp (member : w ∈ c.workloads kind)
    (shown : opts.matchesNamespaceFilter cnp.metadata.namespace_ = true) :
    Hits (cnpEdges c opts cnp) (workloadID kind w) ↔ cnp.selectorMap ≠ [] ∧
      cnp.metadata.namespace_ = w.metadata.namespace_ ∧
        matchesStringMap cnp.selectorMap w.templateLabels = true := by
  unfold cnpEdges
  split
  next empty =>
    rw [length_eq_zero_iff] at empty
    simp [empty, hits_nothing]
  next asks =>
    rw [length_eq_zero_iff] at asks
    rw [hits_protects member shown]
    simp [asks]

end Edges

section Built
variable {c : Cluster} {opts : BuildOptions} {kind : WorkloadKind} {w : Workload}

/-- Among the policies that are shown, those of the workload's namespace are all there. -/
theorem exists_shown {α : Type} {xs : List α} {ns : α → String} {hit holds : α → Prop}
    (shown : opts.matchesNamespaceFilter w.metadata.namespace_ = true)
    (each : ∀ x, opts.matchesNamespaceFilter (ns x) = true → (hit x ↔ holds x))
    (home : ∀ x, holds x → ns x = w.metadata.namespace_) :
    (∃ x, (x ∈ xs ∧ opts.matchesNamespaceFilter (ns x) = true) ∧ hit x) ↔ ∃ x ∈ xs, holds x := by
  constructor
  · rintro ⟨x, ⟨member, own⟩, hits⟩
    exact ⟨x, member, (each x own).mp hits⟩
  · rintro ⟨x, member, met⟩
    have own : opts.matchesNamespaceFilter (ns x) = true := by
      rw [home x met]
      exact shown
    exact ⟨x, ⟨member, own⟩, (each x own).mpr met⟩

theorem hits_built (member : w ∈ c.workloads kind)
    (shown : opts.matchesNamespaceFilter w.metadata.namespace_ = true) :
    Hits (resourceGraph c opts).edges (workloadID kind w) ↔
      (∃ pdb ∈ c.pdbs, pdb.metadata.namespace_ = w.metadata.namespace_ ∧
        ∃ sel, pdb.selector = some sel ∧ sel.matches_ w.templateLabels = true) ∨
      (∃ np ∈ c.netpols, np.podSelector.empty = false ∧ np.metadata.namespace_ = w.metadata.namespace_ ∧
          np.podSelector.matches_ w.templateLabels = true) ∨
      ∃ cnp ∈ c.cnps, cnp.selectorMap ≠ [] ∧ cnp.metadata.namespace_ = w.metadata.namespace_ ∧
        matchesStringMap cnp.selectorMap w.templateLabels = true := by
  simp only [resourceGraph, hits_append, hits_flat_map, mem_filter, or_assoc]
  refine or_congr ?_ (or_congr ?_ ?_)
  · exact exists_shown shown (fun pdb => hits_pdb member) fun pdb met => met.1
  · exact exists_shown shown (fun np => hits_netpol member) fun np met => met.2.1
  · exact exists_shown shown (fun cnp => hits_cnp member) fun cnp met => met.2.1

theorem mem_namespace_workloads (member : w ∈ c.workloads kind) (covers : String → Bool) :
    workloadID kind w ∈ namespaceWorkloads c covers ↔ covers w.metadata.namespace_ = true :=
  mem_picked_ids member fun _ v => covers v.metadata.namespace_

theorem marked_kind {n : Node} (built : n ∈ (resourceGraph c opts).nodes)
    (cilium : n.kind = "CiliumNetworkPolicy" ∨ n.kind = "CiliumClusterwideNetworkPolicy") :
    ∃ cnp ∈ c.cnps, opts.matchesNamespaceFilter cnp.metadata.namespace_ = true ∧ n = cnpNode cnp := by
  simp only [resourceGraph, mem_append, mem_flatMap, mem_map, mem_filter]
    at built
  rcases built with ((⟨kind, _, w, _, rfl⟩ | ⟨pdb, _, rfl⟩) | ⟨np, _, rfl⟩) | ⟨cnp, ⟨listed, shown⟩, rfl⟩
  · cases kind <;> simp [workloadNode, WorkloadKind.nodeKind] at cilium
  · simp [pdbNode] at cilium
  · simp [netpolNode] at cilium
  · exact ⟨cnp, listed, shown, rfl⟩

theorem cnp_marked_iff : matchesAllPods ∈ (cnpNode cnp).data.getD [] ↔ cnp.selectorMap = [] := by
  simp only [cnpNode, Option.getD_some, length_eq_zero_iff]
  split
  next empty => simp [empty]
  next asks => simp [asks, matchesAllPods]

theorem cnp_namespace (cnp : CiliumNetworkPolicy) :
    nodeNamespaceFromData (cnpNode cnp) = cnp.metadata.namespace_ := by
  simp [nodeNamespaceFromData, dataString, cnpNode]

/-- The policies that select every pod are counted apart, without edges. -/
theorem every_pod_iff (member : w ∈ c.workloads kind) :
    workloadID kind w ∈ ((c.netpols.filter fun np => np.podSelector.empty).flatMap
      fun np => namespaceWorkloads c fun ns => ns = np.metadata.namespace_) ↔
        ∃ np ∈ c.netpols, np.podSelector.empty = true ∧ np.metadata.namespace_ = w.metadata.namespace_ := by
  simp only [mem_flatMap, mem_filter, mem_namespace_workloads member,
    decide_eq_true_eq, and_assoc]
  exact exists_congr fun np => and_congr_right fun _ => and_congr_right fun _ => eq_comm

theorem every_endpoint_iff (member : w ∈ c.workloads kind)
    (shown : opts.matchesNamespaceFilter w.metadata.namespace_ = true) :
    workloadID kind w ∈ (((resourceGraph c opts).nodes.filter fun n =>
      (n.kind = "CiliumNetworkPolicy" ∨ n.kind = "CiliumClusterwideNetworkPolicy") ∧
        matchesAllPods ∈ n.data.getD []).flatMap fun n => let ns := nodeNamespaceFromData n
          namespaceWorkloads c fun own => ns = "" ∨ own = ns) ↔
        ∃ cnp ∈ c.cnps, cnp.selectorMap = [] ∧ cnp.metadata.namespace_ = w.metadata.namespace_ := by
  simp only [mem_flatMap, mem_filter, mem_namespace_workloads member, decide_eq_true_eq]
  constructor
  · rintro ⟨n, ⟨built, cilium, marked⟩, home⟩
    obtain ⟨cnp, listed, _, rfl⟩ := marked_kind built cilium
    rw [cnp_namespace] at home
    exact ⟨cnp, listed, cnp_marked_iff.mp marked, (home.resolve_left cnp.metadata.named).symm⟩
  · rintro ⟨cnp, listed, every, home⟩
    have own : opts.matchesNamespaceFilter cnp.metadata.namespace_ = true := by
      rw [home]
      exact shown
    refine ⟨cnpNode cnp, ⟨?_, .inl rfl, cnp_marked_iff.mpr every⟩, ?_⟩
    · exact mem_append_right _ (mem_map.mpr
        ⟨cnp, mem_filter.mpr ⟨listed, own⟩, rfl⟩)
    · rw [cnp_namespace]
      exact .inr home.symm

theorem netpols_split : (∃ np ∈ c.netpols, np.metadata.namespace_ = w.metadata.namespace_ ∧
      np.podSelector.matches_ w.templateLabels = true) ↔
    (∃ np ∈ c.netpols, np.podSelector.empty = false ∧ np.metadata.namespace_ = w.metadata.namespace_ ∧
        np.podSelector.matches_ w.templateLabels = true) ∨
    ∃ np ∈ c.netpols, np.podSelector.empty = true ∧ np.metadata.namespace_ = w.metadata.namespace_ := by
  constructor
  · rintro ⟨np, listed, home, selected⟩
    cases empty : np.podSelector.empty with
    | true => exact .inr ⟨np, listed, empty, home⟩
    | false => exact .inl ⟨np, listed, empty, home, selected⟩
  · rintro (⟨np, listed, _, met⟩ | ⟨np, listed, empty, home⟩)
    · exact ⟨np, listed, met⟩
    · exact ⟨np, listed, home, empty_matches empty w.templateLabels⟩

theorem cnps_split : (∃ cnp ∈ c.cnps, cnp.metadata.namespace_ = w.metadata.namespace_ ∧
      matchesStringMap cnp.selectorMap w.templateLabels = true) ↔
    (∃ cnp ∈ c.cnps, cnp.selectorMap ≠ [] ∧ cnp.metadata.namespace_ = w.metadata.namespace_ ∧
      matchesStringMap cnp.selectorMap w.templateLabels = true) ∨
    ∃ cnp ∈ c.cnps, cnp.selectorMap = [] ∧ cnp.metadata.namespace_ = w.metadata.namespace_ := by
  constructor
  · rintro ⟨cnp, listed, home, selected⟩
    by_cases empty : cnp.selectorMap = []
    · exact .inr ⟨cnp, listed, empty, home⟩
    · exact .inl ⟨cnp, listed, empty, home, selected⟩
  · rintro (⟨cnp, listed, _, met⟩ | ⟨cnp, listed, empty, home⟩)
    · exact ⟨cnp, listed, met⟩
    · exact ⟨cnp, listed, home, by rw [empty]; rfl⟩

/-- A workload is covered, for the code, by what selects it of the three kinds. -/
theorem covered_iff (member : w ∈ c.workloads kind)
    (shown : opts.matchesNamespaceFilter w.metadata.namespace_ = true) :
    workloadID kind w ∈ coveredWorkloads c (resourceGraph c opts) ↔
      (∃ pdb ∈ c.pdbs, pdb.metadata.namespace_ = w.metadata.namespace_ ∧
        ∃ sel, pdb.selector = some sel ∧ sel.matches_ w.templateLabels = true) ∨
      (∃ np ∈ c.netpols, np.metadata.namespace_ = w.metadata.namespace_ ∧
        np.podSelector.matches_ w.templateLabels = true) ∨
      ∃ cnp ∈ c.cnps, cnp.metadata.namespace_ = w.metadata.namespace_ ∧
        matchesStringMap cnp.selectorMap w.templateLabels = true := by
  have edges : workloadID kind w ∈
      (((resourceGraph c opts).edges.filter fun e => e.type = .protects).map Edge.target) ↔
        Hits (resourceGraph c opts).edges (workloadID kind w) := by
    simp [Hits, and_assoc]
  have regroup (p a b a' b' : Prop) : ((p ∨ a ∨ b) ∨ a') ∨ b' ↔ p ∨ (a ∨ a') ∨ b ∨ b' := by
    tauto
  rw [coveredWorkloads, mem_append, mem_append, edges, every_pod_iff member,
    every_endpoint_iff member shown, hits_built member shown, netpols_split, cnps_split]
  exact regroup _ _ _ _ _

end Built

section Badges
variable {c : Cluster} {opts : BuildOptions} {kind : WorkloadKind} {w : Workload}

/-- What the code takes for a network policy of the workload though none selects it: a disruption
budget, or a Cilium policy whose matchLabels fit in the code's reading of them. -/
def Misread (c : Cluster) (w : Workload) : Prop :=
  (∃ pdb ∈ c.pdbs, pdb.metadata.namespace_ = w.metadata.namespace_ ∧
    ∃ sel, pdb.selector = some sel ∧ sel.matches_ w.templateLabels = true) ∨
  ∃ cnp ∈ c.cnps, cnp.metadata.namespace_ = w.metadata.namespace_ ∧
    matchesStringMap cnp.selectorMap w.templateLabels = true ∧ ¬ cnp.selects w.templateLabels

theorem selects_string_map {labels : Labels}
    (selects : cnp.selects labels) : matchesStringMap cnp.selectorMap labels = true := by
  obtain ⟨sel, asked, met⟩ := selects
  have entries := all_eq_true.mp (Bool.and_eq_true_iff.mp met).1
  refine all_eq_true.mpr fun pair member => ?_
  have own : pair ∈ sel.matchLabels := by
    simpa [CiliumNetworkPolicy.selectorMap, asked] using member
  have entry := entries pair own
  cases value : pair.2 with
  | none => simp [value] at entry
  | some sv =>
    have found : labels pair.1 = some sv := by simpa [value] using entry
    simp [found]

theorem covered_truthful_iff (member : w ∈ c.workloads kind)
    (shown : opts.matchesNamespaceFilter w.metadata.namespace_ = true) :
    (workloadID kind w ∈ coveredWorkloads c (resourceGraph c opts) ↔ Covered c w) ↔
      (Misread c w → Covered c w) := by
  rw [covered_iff member shown]
  constructor
  · rintro agree (budget | ⟨cnp, listed, home, fits, _⟩)
    · exact agree.mp (.inl budget)
    · exact agree.mp (.inr (.inr ⟨cnp, listed, home, fits⟩))
  · intro corrected
    constructor
    · rintro (budget | netpol | ⟨cnp, listed, home, fits⟩)
      · exact corrected (.inl budget)
      · exact .inl netpol
      · by_cases selects : cnp.selects w.templateLabels
        · exact .inr ⟨cnp, listed, home, selects⟩
        · exact corrected (.inr ⟨cnp, listed, home, fits, selects⟩)
    · rintro (netpol | ⟨cnp, listed, home, selects⟩)
      · exact .inr (.inl netpol)
      · exact .inr (.inr ⟨cnp, listed, home, selects_string_map selects⟩)

theorem other_id {prefix_ : String} {own : ObjectMeta} (plain : '/' ∉ prefix_.toList)
    (other : ∀ k : WorkloadKind, prefix_ ≠ k.idPrefix) : nodeID prefix_ own ≠ workloadID kind w := by
  intro same
  have slashless : '/' ∉ kind.idPrefix.toList := by cases kind <;> decide
  exact other kind (node_id_inj plain slashless same).1

/-- The node of a workload's id is its own. -/
theorem built_node {n : Node} (member : w ∈ c.workloads kind)
    (built : n ∈ (resourceGraph c opts).nodes) (same : n.id = workloadID kind w) :
    n = workloadNode kind w ∧ opts.matchesNamespaceFilter w.metadata.namespace_ = true := by
  simp only [resourceGraph, mem_append, mem_flatMap, mem_map, mem_filter]
    at built
  rcases built with ((⟨k, _, v, ⟨listed, shown⟩, rfl⟩ | ⟨pdb, _, rfl⟩) | ⟨np, _, rfl⟩) | ⟨cnp, _, rfl⟩
  · obtain ⟨rfl, rfl⟩ := workload_id_inj listed member same
    exact ⟨rfl, shown⟩
  · exact absurd same (other_id (by decide) fun k => by cases k <;> decide)
  · exact absurd same (other_id (by decide) fun k => by cases k <;> decide)
  · exact absurd same (other_id (by decide) fun k => by cases k <;> decide)

theorem node_built (member : w ∈ c.workloads kind)
    (shown : opts.matchesNamespaceFilter w.metadata.namespace_ = true) :
    workloadNode kind w ∈ (resourceGraph c opts).nodes := by
  simp only [resourceGraph, mem_append, mem_flatMap, mem_map, mem_filter]
  exact .inl (.inl (.inl ⟨kind, mem_kinds kind, w, ⟨member, shown⟩, rfl⟩))

/-- The workload's node with its badge. -/
def badgedNode (c : Cluster) (opts : BuildOptions) (kind : WorkloadKind) (w : Workload) : Node :=
  setData (workloadNode kind w) "policyStatus"
    (if workloadID kind w ∈ coveredWorkloads c (resourceGraph c opts) then "protected"
      else "unprotected")

theorem badge_iff : dataString (badgedNode c opts kind w) "policyStatus" = "protected" ↔
    workloadID kind w ∈ coveredWorkloads c (resourceGraph c opts) := by
  simp only [badgedNode, setData, dataString, Option.getD_some, lookup_cons_self]
  split
  next covered => simp [covered]
  next bare => simp [bare]

theorem workload_kind_annotated (kind : WorkloadKind) (w : Workload) :
    (workloadNode kind w).kind = "Deployment" ∨ (workloadNode kind w).kind = "StatefulSet" ∨
      (workloadNode kind w).kind = "DaemonSet" := by
  cases kind with
  | deployment => exact .inl rfl
  | statefulSet => exact .inr (.inl rfl)
  | daemonSet => exact .inr (.inr rfl)

theorem annotated_node (asked : opts.showPolicyEffect = true) (member : w ∈ c.workloads kind)
    {n : Node} : (n ∈ (buildResourcesTopology c opts).nodes ∧ n.id = workloadID kind w) ↔
      n = badgedNode c opts kind w ∧ opts.matchesNamespaceFilter w.metadata.namespace_ = true := by
  simp only [buildResourcesTopology, asked, if_true, annotateNodePolicyCoverage, mem_map]
  constructor
  · rintro ⟨⟨m, built, rfl⟩, same⟩
    have own : m.id = workloadID kind w := by
      rw [← same]
      split <;> rfl
    obtain ⟨rfl, shown⟩ := built_node member built own
    rw [if_pos (workload_kind_annotated kind w)]
    exact ⟨rfl, shown⟩
  · rintro ⟨rfl, shown⟩
    refine ⟨⟨workloadNode kind w, node_built member shown, ?_⟩, rfl⟩
    rw [if_pos (workload_kind_annotated kind w)]
    rfl

/-- The badge is right exactly when the code misreads nothing, or the workload is covered anyway. -/
theorem coverage_truthful_iff (c : Cluster) (opts : BuildOptions) (kind : WorkloadKind)
    (w : Workload) (asked : opts.showPolicyEffect = true) (member : w ∈ c.workloads kind) :
    Truthful c opts kind w ↔
      (opts.matchesNamespaceFilter w.metadata.namespace_ = true → Misread c w → Covered c w) := by
  constructor
  · intro truthful shown
    obtain ⟨built, same⟩ := (annotated_node asked member).mpr ⟨rfl, shown⟩
    have badge := truthful _ built same
    rw [badge_iff] at badge
    exact (covered_truthful_iff member shown).mp badge
  · intro corrected n built same
    obtain ⟨rfl, shown⟩ := (annotated_node asked member).mp ⟨built, same⟩
    rw [badge_iff]
    exact (covered_truthful_iff member shown).mpr (corrected shown)

end Badges

section Budget

theorem shop_named : "shop" ≠ "" := by decide

theorem shop_slashless : '/' ∉ "shop".toList := by decide

def shopMeta (name : String) : ObjectMeta := ⟨"shop", name, shop_named, shop_slashless⟩

def cartLabels : Labels := fun key => if key = "app" then some "cart" else none

def cart : Workload := ⟨shopMeta "cart", cartLabels, .healthy, []⟩

/-- A disruption budget for the cart, with the given network policies. -/
def shopCluster (netpols : List NetworkPolicy) : Cluster where
  workloads := fun kind => if kind = .deployment then [cart] else []
  pdbs := [⟨shopMeta "cart-budget", some ⟨[("app", "cart")], []⟩, 1, 2, 1⟩]
  netpols := netpols
  cnps := []
  distinct := by
    intro kind w member w' member' _ _
    cases kind with
    | deployment =>
      obtain rfl := List.mem_singleton.mp member
      exact (List.mem_singleton.mp member').symm
    | statefulSet => cases member
    | daemonSet => cases member

def badges : BuildOptions := { defaultBuildOptions with showPolicyEffect := true }

def cartOnly : NetworkPolicy := ⟨shopMeta "cart-only", ⟨[("app", "cart")], []⟩, ["Ingress"]⟩

theorem cart_covered_truthful : Truthful (shopCluster [cartOnly]) badges .deployment cart := by
  refine (coverage_truthful_iff (shopCluster [cartOnly]) badges .deployment cart rfl
    List.mem_cons_self).mpr fun _ _ => ?_
  exact .inl ⟨cartOnly, List.mem_cons_self, rfl, by decide⟩

/-- No network policy is there, and the budget alone marks the cart protected. -/
theorem budget_marks_protected : (∃ n ∈ (buildResourcesTopology (shopCluster []) badges).nodes,
      n.id = "deployment/shop/cart" ∧ dataString n "policyStatus" = "protected") ∧
    ¬ Truthful (shopCluster []) badges .deployment cart := by
  have asked : badges.showPolicyEffect = true := rfl
  have member : cart ∈ (shopCluster []).workloads .deployment := List.mem_cons_self
  have budget : Misread (shopCluster []) cart := .inl ⟨_, List.mem_cons_self, rfl, _, rfl, by decide⟩
  have bare : ¬ Covered (shopCluster []) cart := by
    rintro (⟨np, listed, _⟩ | ⟨cnp, listed, _⟩)
    · cases listed
    · cases listed
  constructor
  · obtain ⟨built, same⟩ := (annotated_node asked member).mpr ⟨rfl, rfl⟩
    refine ⟨_, built, same.trans (by decide), badge_iff.mpr ?_⟩
    exact (covered_iff member rfl).mpr (.inl ⟨_, List.mem_cons_self, rfl, _, rfl, by decide⟩)
  · intro truthful
    obtain ⟨built, same⟩ := (annotated_node asked member).mpr ⟨rfl, rfl⟩
    have badge := truthful _ built same
    rw [badge_iff] at badge
    exact bare ((covered_truthful_iff member rfl).mp badge budget)

end Budget

end PolicyCoverage
