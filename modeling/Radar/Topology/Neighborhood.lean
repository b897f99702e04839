import Mathlib.Data.List.Nodup
import Radar.Topology.NodeRef

/- pkg/topology/neighborhood.go: the bounded breadth-first neighborhood of a resource, under an
   access predicate. -/
namespace Neighborhood
open Topology NodeRef GoText List
variable {n : Node}

inductive Profile where
  | all
  | auto
  | unrecognized (text : String)
  deriving DecidableEq, Repr

def resolveProfile (casing : Casing) (s : String) : Profile := let p := casing.toLower (trimSpace s)
  if p = "" ∨ p = "auto" then .auto
  else if p = "all" then .all
  else .auto

structure NeighborhoodOptions where
  profile : Profile
  hops : Int
  maxNodes : Int
  allow : Option (Node → Bool)

structure Subgraph where
  root : ResourceRef
  nodes : List Node
  edges : List Edge
  truncated : Bool
  rbacDenied : Nat
  ambiguousRoot : Bool
  deriving DecidableEq, Repr

/-- What the shared index keeps for a node: its edges in both directions, none for the empty identifier. -/
structure RelationshipsIndex where
  incoming : String → List Edge
  outgoing : String → List Edge

def indexByResource (t : Graph) : RelationshipsIndex where
  incoming id := if id = "" then [] else t.edges.filter fun e => e.target == id
  outgoing id := if id = "" then [] else t.edges.filter fun e => e.source == id

def clampHops (hops : Int) : Nat := if hops ≤ 0 then 1 else if 2 < hops then 2 else hops.toNat

def nodeBudget (maxNodes : Int) : Nat := if maxNodes ≤ 0 then 25 else maxNodes.toNat

def allEdgeTypes : List EdgeType := [.manages, .routesTo, .exposes, .uses, .protects, .configures]

def edgeTypesForAuto (rootKind : String) : List EdgeType := if rootKind ∈
    ["Pod", "PodGroup", "Deployment", "StatefulSet", "DaemonSet", "ReplicaSet", "Rollout", "Job",
      "CronJob", "KnativeService", "KnativeRevision", "KnativeConfiguration"] then
    [.manages, .routesTo, .exposes, .protects]
  else if rootKind ∈ ["Application", "Kustomization", "HelmRelease", "GitRepository"] then
    [.manages]
  else if rootKind ∈
    ["Service", "Ingress", "Gateway", "GatewayClass", "HTTPRoute", "GRPCRoute", "TCPRoute",
      "TLSRoute", "VirtualService", "IstioGateway", "HTTPProxy", "IngressRoute",
      "IngressRouteTCP", "IngressRouteUDP"] then
    [.routesTo, .exposes]
  else if rootKind ∈
    ["NetworkPolicy", "CiliumNetworkPolicy", "CiliumClusterwideNetworkPolicy",
      "ClusterNetworkPolicy", "PodDisruptionBudget", "MachineHealthCheck", "PeerAuthentication",
      "AuthorizationPolicy"] then
    [.protects]
  else if rootKind ∈ ["Node", "NodePool", "NodeClaim", "NodeClass"] then [.manages]
  else allEdgeTypes

def edgeTypesForProfile (p : Profile) (rootKind : String) : List EdgeType := match p with
  | .all => allEdgeTypes
  | .auto => edgeTypesForAuto rootKind
  | .unrecognized _ => edgeTypesForAuto rootKind

/-- The map from identifiers to nodes: of nodes with one identifier the last is kept. -/
def nodeByID (t : Graph) (id : String) : Option Node := t.nodes.reverse.find? fun n => n.id == id

def NeighborhoodOptions.allows (opts : NeighborhoodOptions) (n : Node) : Bool := match opts.allow with
  | none => true
  | some allow => allow n

def neighbors (t : Graph) (idx : Option RelationshipsIndex) (allowedEdges : List EdgeType)
    (id : String) : List Edge :=
  match idx with
  | some idx => (idx.outgoing id).filter (fun e => allowedEdges.contains e.type) ++
      (idx.incoming id).filter fun e => allowedEdges.contains e.type
  | none => t.edges.filter fun e => allowedEdges.contains e.type && (e.source == id || e.target == id)

/-- `order` lists the included identifiers as they were added, the root first. -/
structure Walk where
  order : List String
  next : List String
  denied : List String
  truncated : Bool

def otherEnd (id : String) (e : Edge) : String := if e.source = id then e.target else e.source

def visitEdge (t : Graph) (opts : NeighborhoodOptions) (id : String) (w : Walk) (e : Edge) : Walk :=
  let other := otherEnd id e
  if w.order.contains other then w
  else if w.denied.contains other then w
  else match nodeByID t other with
  | none => w
  | some candidate =>
    if ¬ opts.allows candidate then { w with denied := other :: w.denied }
    else if nodeBudget opts.maxNodes ≤ w.order.length then { w with truncated := true }
    else { w with order := w.order ++ [other], next := w.next ++ [other] }

/-- A hop stops after the frontier node at which the budget ran out. -/
def expand (t : Graph) (idx : Option RelationshipsIndex) (opts : NeighborhoodOptions)
    (allowedEdges : List EdgeType) : List String → Walk → Walk
  | [], w => w
  | id :: rest, w =>
    let visited := (neighbors t idx allowedEdges id).foldl (visitEdge t opts id) w
    if visited.truncated then visited else expand t idx opts allowedEdges rest visited

def walkHops (t : Graph) (idx : Option RelationshipsIndex) (opts : NeighborhoodOptions)
    (allowedEdges : List EdgeType) : Nat → List String → Walk → Walk
  | 0, _, w => w
  | hops + 1, frontier, w =>
    let reached := expand t idx opts allowedEdges frontier { w with next := [] }
    if reached.truncated || reached.next.isEmpty then reached
    else walkHops t idx opts allowedEdges hops reached.next reached

def resolveRoot (casing : Casing) (dp : Option DynamicProvider) (t : Graph) (root : ResourceRef) : Found :=
  match nodeByID t (buildNodeID casing dp root.kind root.namespace_ root.name) with
  | none => findNodeByRef casing t.nodes root
  | some n =>
    if root.group ≠ "" ∧ nodeAPIGroupFromData n ≠ root.group then findNodeByRef casing t.nodes root
    else .node n

def emptySubgraph (root : ResourceRef) : Subgraph := ⟨root, [], [], false, 0, false⟩

def subgraphFrom (t : Graph) (root : ResourceRef) (opts : NeighborhoodOptions)
    (idx : Option RelationshipsIndex) (rootNode : Node) : Subgraph :=
  let allowedEdges := edgeTypesForProfile opts.profile rootNode.kind
  let w := walkHops t idx opts allowedEdges (clampHops opts.hops) [rootNode.id]
    ⟨[rootNode.id], [], [], false⟩
  { root := root
    nodes := w.order.filterMap (nodeByID t)
    edges := t.edges.filter fun e => allowedEdges.contains e.type &&
      w.order.contains e.source && w.order.contains e.target
    truncated := w.truncated
    rbacDenied := w.denied.length
    ambiguousRoot := false }

def buildNeighborhoodWithIndex (casing : Casing) (t : Option Graph) (root : ResourceRef)
    (opts : NeighborhoodOptions) (idx : Option RelationshipsIndex)
    (dp : Option DynamicProvider) : Subgraph :=
  match t with
  | none => emptySubgraph root
  | some t => match resolveRoot casing dp t root with
    | .missing => emptySubgraph root
    | .ambiguous => { emptySubgraph root with ambiguousRoot := true }
    | .node rootNode =>
      if ¬ opts.allows rootNode then { emptySubgraph root with rbacDenied := 1 }
      else subgraphFrom t root opts idx rootNode

def buildNeighborhood (casing : Casing) (t : Option Graph) (root : ResourceRef)
    (opts : NeighborhoodOptions) : Subgraph :=
  buildNeighborhoodWithIndex casing t root opts none none

/-- The identifier of a node the predicate rejects. -/
def deniedID (opts : NeighborhoodOptions) (t : Graph) (id : String) : Bool :=
  t.nodes.any fun n => n.id == id && !opts.allows n

def keepEdge (opts : NeighborhoodOptions) (t : Graph) (e : Edge) : Bool :=
  !deniedID opts t e.source && !deniedID opts t e.target

/-- The topology without the nodes the predicate rejects and their incident edges. -/
def prune (opts : NeighborhoodOptions) (t : Graph) : Graph where
  nodes := t.nodes.filter opts.allows
  edges := t.edges.filter (keepEdge opts t)

def DistinctIDs (t : Graph) : Prop := (t.nodes.map Node.id).Nodup

instance (t : Graph) : Decidable (DistinctIDs t) := inferInstanceAs (Decidable (t.nodes.map Node.id).Nodup)

section Lookup
variable {t : Graph} {opts : NeighborhoodOptions} {id : String}

theorem distinct_node {nodes : List Node} (distinct : (nodes.map Node.id).Nodup) {a b : Node}
    (first : a ∈ nodes) (second : b ∈ nodes) (same : a.id = b.id) : a = b := by
  exact inj_on_of_nodup_map distinct first second same

theorem node_by_id_mem (found : nodeByID t id = some n) : n ∈ t.nodes ∧ n.id = id := by
  have member := mem_of_find?_eq_some found
  have named := find?_some found
  exact ⟨mem_reverse.mp member, by simpa using named⟩

theorem node_by_id_some (distinct : DistinctIDs t) : nodeByID t id = some n ↔ n ∈ t.nodes ∧ n.id = id := by
  constructor
  · exact node_by_id_mem
  · rintro ⟨member, named⟩
    unfold nodeByID
    cases found : t.nodes.reverse.find? fun n => n.id == id with
    | none =>
      have absent := find?_eq_none.mp found n (mem_reverse.mpr member)
      simp [named] at absent
    | some m =>
      have member' := mem_reverse.mp (mem_of_find?_eq_some found)
      have named' : m.id = id := by simpa using find?_some found
      rw [distinct_node distinct member' member (named'.trans named.symm)]

theorem distinct_prune (distinct : DistinctIDs t) : DistinctIDs (prune opts t) :=
  (filter_sublist.map Node.id).nodup distinct

/-- Lookups in the pruned topology are the allowed ones of the whole. -/
theorem node_by_id_prune (distinct : DistinctIDs t) (id : String) :
    nodeByID (prune opts t) id = (nodeByID t id).filter opts.allows := by
  cases whole : nodeByID t id with
  | none =>
    cases pruned : nodeByID (prune opts t) id with
    | none => rfl
    | some n =>
      obtain ⟨member, named⟩ := (node_by_id_some (distinct_prune distinct)).mp pruned
      have found := (node_by_id_some distinct).mpr ⟨mem_of_mem_filter member, named⟩
      rw [whole] at found
      contradiction
  | some n =>
    obtain ⟨member, named⟩ := (node_by_id_some distinct).mp whole
    by_cases allowed : opts.allows n = true
    · rw [Option.filter_some, if_pos allowed]
      exact (node_by_id_some (distinct_prune distinct)).mpr
        ⟨mem_filter.mpr ⟨member, allowed⟩, named⟩
    · rw [Option.filter_some, if_neg allowed]
      cases pruned : nodeByID (prune opts t) id with
      | none => rfl
      | some m =>
        obtain ⟨member', named'⟩ := (node_by_id_some (distinct_prune distinct)).mp pruned
        obtain ⟨inside, kept⟩ := mem_filter.mp member'
        rw [distinct_node distinct inside member (named'.trans named.symm)] at kept
        exact absurd kept allowed

theorem denied_id_iff (distinct : DistinctIDs t) :
    deniedID opts t id = true ↔ ∃ n, nodeByID t id = some n ∧ opts.allows n = false := by
  unfold deniedID
  rw [any_eq_true]
  constructor
  · rintro ⟨n, member, both⟩
    simp only [Bool.and_eq_true, beq_iff_eq, Bool.not_eq_true'] at both
    exact ⟨n, (node_by_id_some distinct).mpr ⟨member, both.1⟩, both.2⟩
  · rintro ⟨n, found, denied⟩
    obtain ⟨member, named⟩ := (node_by_id_some distinct).mp found
    exact ⟨n, member, by simp [named, denied]⟩

theorem not_denied (distinct : DistinctIDs t)
    (clear : deniedID opts t id = false) (found : nodeByID t id = some n) :
    opts.allows n = true := by
  by_contra rejected
  have denied := (denied_id_iff distinct).mpr ⟨n, found, by simpa using rejected⟩
  rw [clear] at denied
  contradiction

theorem node_by_id_clear (distinct : DistinctIDs t)
    (clear : deniedID opts t id = false) : nodeByID (prune opts t) id = nodeByID t id := by
  rw [node_by_id_prune distinct]
  cases found : nodeByID t id with
  | none => rfl
  | some n => rw [Option.filter_some, if_pos (not_denied distinct clear found)]

end Lookup

/-- The index either caller builds of its own topology, or none. -/
def indexFor (indexed : Bool) (t : Graph) : Option RelationshipsIndex :=
  if indexed then some (indexByResource t) else none

section Walk
variable {t : Graph} {opts : NeighborhoodOptions} {allowedEdges : List EdgeType} {id : String}
variable {w w' : Walk} {e : Edge}

theorem neighbors_prune (indexed : Bool) :
    neighbors (prune opts t) (indexFor indexed (prune opts t)) allowedEdges id =
      (neighbors t (indexFor indexed t) allowedEdges id).filter (keepEdge opts t) := by
  cases indexed with
  | false =>
    simp only [neighbors, indexFor, prune, filter_filter, Bool.false_eq_true, if_false]
    apply filter_congr
    intro e _
    exact Bool.and_comm _ _
  | true =>
    simp only [neighbors, indexFor, indexByResource, prune, if_true, filter_append]
    by_cases empty : id = ""
    · simp [empty]
    · simp only [empty, if_false, filter_filter]
      congr 1
      · apply filter_congr
        intro e _
        rw [Bool.and_comm (keepEdge opts t e), Bool.and_assoc]
      · apply filter_congr
        intro e _
        rw [Bool.and_comm (keepEdge opts t e), Bool.and_assoc]

theorem neighbor_touches {indexed : Bool} (member : e ∈ neighbors t (indexFor indexed t) allowedEdges id) :
    e.source = id ∨ e.target = id := by
  cases indexed with
  | false =>
    simp only [neighbors, indexFor, Bool.false_eq_true, if_false, mem_filter,
      Bool.and_eq_true, Bool.or_eq_true, beq_iff_eq] at member
    exact member.2.2
  | true =>
    simp only [neighbors, indexFor, if_true, indexByResource, mem_append] at member
    by_cases empty : id = ""
    · simp [empty] at member
    · simp only [empty, if_false, mem_filter, beq_iff_eq] at member
      rcases member with outgoing | incoming
      · exact Or.inl outgoing.1.2
      · exact Or.inr incoming.1.2

/-- The walk over the whole topology beside the one over the pruned topology: only what the first
   has denied sets them apart. -/
structure Aligned (opts : NeighborhoodOptions) (t : Graph) (w w' : Walk) : Prop where
  order : w.order = w'.order
  next : w.next = w'.next
  truncated : w.truncated = w'.truncated
  clean : w'.denied = []
  denied : ∀ x ∈ w.denied, deniedID opts t x = true
  clear : ∀ x ∈ w.order, deniedID opts t x = false
  clearNext : ∀ x ∈ w.next, deniedID opts t x = false

theorem other_end_denied (clear : deniedID opts t id = false)
    (touches : e.source = id ∨ e.target = id) (dropped : keepEdge opts t e = false) :
    deniedID opts t (otherEnd id e) = true := by
  unfold otherEnd
  simp only [keepEdge, Bool.and_eq_false_iff, Bool.not_eq_false'] at dropped
  by_cases source : e.source = id
  · rw [if_pos source]
    rcases dropped with first | second
    · rw [source, clear] at first
      contradiction
    · exact second
  · rw [if_neg source]
    rcases dropped with first | second
    · exact first
    · rw [touches.resolve_left source, clear] at second
      contradiction

theorem other_end_clear (kept : keepEdge opts t e = true) : deniedID opts t (otherEnd id e) = false := by
  simp only [keepEdge, Bool.and_eq_true, Bool.not_eq_true'] at kept
  unfold otherEnd
  split
  · exact kept.2
  · exact kept.1

/-- An edge to a denied node notes the denial and nothing else. -/
theorem visit_dropped (distinct : DistinctIDs t)
    (denied : deniedID opts t (otherEnd id e) = true) (aligned : Aligned opts t w w') :
    Aligned opts t (visitEdge t opts id w e) w' := by
  obtain ⟨n, found, rejected⟩ := (denied_id_iff distinct).mp denied
  have excluded : otherEnd id e ∉ w.order := by
    intro included
    rw [aligned.clear _ included] at denied
    contradiction
  by_cases again : otherEnd id e ∈ w.denied
  · simpa [visitEdge, excluded, again] using aligned
  · have noted : visitEdge t opts id w e = { w with denied := otherEnd id e :: w.denied } := by
      simp [visitEdge, excluded, again, found, rejected]
    rw [noted]
    refine ⟨aligned.order, aligned.next, aligned.truncated, aligned.clean, ?_, aligned.clear,
      aligned.clearNext⟩
    intro x member
    rcases mem_cons.mp member with new | old
    · exact new ▸ denied
    · exact aligned.denied x old

theorem visit_kept (distinct : DistinctIDs t)
    (clear : deniedID opts t (otherEnd id e) = false) (aligned : Aligned opts t w w') :
    Aligned opts t (visitEdge t opts id w e) (visitEdge (prune opts t) opts id w' e) := by
  have fresh : otherEnd id e ∉ w.denied := by
    intro member
    rw [aligned.denied _ member] at clear
    contradiction
  have lookup := node_by_id_clear distinct clear
  simp only [visitEdge, ← aligned.order, aligned.clean, lookup]
  by_cases included : otherEnd id e ∈ w.order
  · simpa [included] using aligned
  · cases found : nodeByID t (otherEnd id e) with
    | none => simpa [included, fresh] using aligned
    | some n =>
      have allowed := not_denied distinct clear found
      by_cases full : nodeBudget opts.maxNodes ≤ w.order.length
      · simp only [contains_eq_mem, included, decide_false, fresh, allowed, full,
          not_mem_nil, not_true_eq_false, if_true, if_false, Bool.false_eq_true]
        exact ⟨rfl, aligned.next, rfl, rfl, aligned.denied, aligned.clear, aligned.clearNext⟩
      · simp only [contains_eq_mem, included, decide_false, fresh, allowed, full,
          not_mem_nil, not_true_eq_false, if_false, Bool.false_eq_true]
        have grown : ∀ xs : List String, (∀ x ∈ xs, deniedID opts t x = false) →
            ∀ x ∈ xs ++ [otherEnd id e], deniedID opts t x = false := by
          intro xs old x member
          rcases mem_append.mp member with before | new
          · exact old x before
          · exact mem_singleton.mp new ▸ clear
        exact ⟨rfl, by rw [aligned.next], aligned.truncated, rfl, aligned.denied,
          grown _ aligned.clear, grown _ aligned.clearNext⟩

theorem visit_neighbors (allowedEdges : List EdgeType) (distinct : DistinctIDs t) (indexed : Bool)
    (clear : deniedID opts t id = false) (aligned : Aligned opts t w w') :
    Aligned opts t
      ((neighbors t (indexFor indexed t) allowedEdges id).foldl (visitEdge t opts id) w)
      ((neighbors (prune opts t) (indexFor indexed (prune opts t)) allowedEdges id).foldl
        (visitEdge (prune opts t) opts id) w') := by
  rw [neighbors_prune]
  apply LockStep.foldl_filter (R := Aligned opts t) _ _ aligned
  · intro e member v v' dropped same
    exact visit_dropped distinct
      (other_end_denied clear (neighbor_touches member) dropped) same
  · intro e _ v v' kept same
    exact visit_kept distinct (other_end_clear kept) same

theorem expand_aligned (allowedEdges : List EdgeType) (distinct : DistinctIDs t) (indexed : Bool) {frontier : List String}
    (clear : ∀ x ∈ frontier, deniedID opts t x = false)
    (aligned : Aligned opts t w w') :
    Aligned opts t (expand t (indexFor indexed t) opts allowedEdges frontier w)
      (expand (prune opts t) (indexFor indexed (prune opts t)) opts allowedEdges frontier w') := by
  induction frontier generalizing w w' with
  | nil => exact aligned
  | cons first rest ih =>
    have visited := visit_neighbors allowedEdges distinct indexed
      (clear first mem_cons_self) aligned
    simp only [expand, ← visited.truncated]
    split
    · exact visited
    · exact ih (fun x member => clear x (mem_cons_of_mem first member)) visited

theorem walk_aligned (allowedEdges : List EdgeType) (distinct : DistinctIDs t) (indexed : Bool) (hops : Nat)
    {frontier : List String} (clear : ∀ x ∈ frontier, deniedID opts t x = false)
    (aligned : Aligned opts t w w') :
    Aligned opts t (walkHops t (indexFor indexed t) opts allowedEdges hops frontier w)
      (walkHops (prune opts t) (indexFor indexed (prune opts t)) opts allowedEdges hops frontier
        w') := by
  induction hops generalizing frontier w w' with
  | zero => exact aligned
  | succ hops ih =>
    have started : Aligned opts t { w with next := [] } { w' with next := [] } :=
      ⟨aligned.order, rfl, aligned.truncated, aligned.clean, aligned.denied, aligned.clear, by simp⟩
    have reached := expand_aligned allowedEdges distinct indexed clear started
    simp only [walkHops, ← reached.truncated, ← reached.next]
    split
    · exact reached
    · exact ih reached.clearNext reached

/-- From one allowed root the two topologies give one subgraph, but for the denial count. -/
theorem subgraph_prune (distinct : DistinctIDs t) (indexed : Bool) (root : ResourceRef)
    {rootNode : Node} (member : rootNode ∈ t.nodes) (allowed : opts.allows rootNode = true) :
    { subgraphFrom t root opts (indexFor indexed t) rootNode with rbacDenied := 0 } =
      { subgraphFrom (prune opts t) root opts (indexFor indexed (prune opts t)) rootNode with
        rbacDenied := 0 } := by
  have clear : ∀ x ∈ [rootNode.id], deniedID opts t x = false := by
    intro x only
    rw [mem_singleton.mp only]
    by_contra rejected
    obtain ⟨n, found, denied⟩ := (denied_id_iff distinct).mp (by simpa using rejected)
    obtain ⟨inside, named⟩ := (node_by_id_some distinct).mp found
    rw [distinct_node distinct inside member named, allowed] at denied
    contradiction
  have start : Aligned opts t ⟨[rootNode.id], [], [], false⟩ ⟨[rootNode.id], [], [], false⟩ :=
    ⟨rfl, rfl, rfl, rfl, by simp, clear, by simp⟩
  have walked := walk_aligned (edgeTypesForProfile opts.profile rootNode.kind)
    distinct indexed (clampHops opts.hops) clear start
  simp only [subgraphFrom, ← walked.order, ← walked.truncated]
  generalize walkHops t _ opts _ _ _ _ = w at walked ⊢
  congr 1
  · apply filterMap_congr
    intro x included
    exact (node_by_id_clear distinct (walked.clear x included)).symm
  · simp only [prune, filter_filter]
    apply filter_congr
    intro e _
    by_cases source : e.source ∈ w.order
    · by_cases target : e.target ∈ w.order
      · have kept : keepEdge opts t e = true := by
          simp [keepEdge, walked.clear _ source, walked.clear _ target]
        simp [kept]
      · simp [target]
    · simp [source]

end Walk

section Root
variable {casing : Casing} {dp : Option DynamicProvider} {t : Graph} {root : ResourceRef}
  {opts : NeighborhoodOptions}

/-- The lookup by identifier, with its check of the API group. -/
def directRoot (casing : Casing) (dp : Option DynamicProvider) (t : Graph) (root : ResourceRef) :
    Option Node :=
  (nodeByID t (buildNodeID casing dp root.kind root.namespace_ root.name)).filter fun n =>
    root.group == "" || nodeAPIGroupFromData n == root.group

theorem resolve_direct : resolveRoot casing dp t root = match directRoot casing dp t root with
    | some n => .node n
    | none => findNodeByRef casing t.nodes root := by
  unfold resolveRoot directRoot
  cases nodeByID t (buildNodeID casing dp root.kind root.namespace_ root.name) with
  | none => rfl
  | some n =>
    by_cases grouped : root.group = ""
    · simp [grouped, Option.filter_some]
    · by_cases same : nodeAPIGroupFromData n = root.group
      · simp [same, Option.filter_some]
      · simp [grouped, same, Option.filter_some]

theorem direct_prune (distinct : DistinctIDs t) : directRoot casing dp (prune opts t) root =
    (directRoot casing dp t root).filter opts.allows := by
  unfold directRoot
  rw [node_by_id_prune distinct, Option.filter_filter, Option.filter_filter]
  congr 1
  funext n
  exact Bool.and_comm _ _

def matching (casing : Casing) (t : Graph) (root : ResourceRef) : List Node :=
  t.nodes.filter (matchesRef casing root)

theorem find_matching (one : OneGroup (matching casing t root)) :
    findNodeByRef casing t.nodes root = lastFound (matching casing t root) :=
  find_of_one_group one

theorem matching_prune : matching casing (prune opts t) root =
    (matching casing t root).filter opts.allows := by
  simp only [matching, prune, filter_filter]
  apply filter_congr
  intro n _
  exact Bool.and_comm _ _

theorem resolved_member (resolved : resolveRoot casing dp t root = .node n) : n ∈ t.nodes := by
  rw [resolve_direct] at resolved
  cases direct : directRoot casing dp t root with
  | some m =>
    simp only [direct, Found.node.injEq] at resolved
    subst resolved
    obtain ⟨found, _⟩ := Option.filter_eq_some_iff.mp direct
    exact (node_by_id_mem found).1
  | none =>
    simp only [direct] at resolved
    by_cases one : OneGroup (matching casing t root)
    · rw [find_matching one] at resolved
      exact mem_of_mem_filter (last_found_mem resolved)
    · rw [find_of_mixed one] at resolved
      contradiction

/-- Where two nodes of different API groups match and the identifier finds none, two such nodes
   are allowed. -/
def AmbiguityAllowed (casing : Casing) (dp : Option DynamicProvider) (opts : NeighborhoodOptions)
    (t : Graph) (root : ResourceRef) : Prop :=
  directRoot casing dp t root = none → ¬ OneGroup (matching casing t root) →
    ∃ a ∈ matching casing t root, ∃ b ∈ matching casing t root,
      opts.allows a = true ∧ opts.allows b = true ∧ nodeAPIGroupFromData a ≠ nodeAPIGroupFromData b

theorem mixed_prune : ¬ OneGroup (matching casing (prune opts t) root) ↔
    ∃ a ∈ matching casing t root, ∃ b ∈ matching casing t root,
      opts.allows a = true ∧ opts.allows b = true ∧ nodeAPIGroupFromData a ≠ nodeAPIGroupFromData b := by
  rw [matching_prune]
  constructor
  · intro mixed
    by_contra none
    apply mixed
    intro a first b second
    by_contra differ
    obtain ⟨first, allowed⟩ := mem_filter.mp first
    obtain ⟨second, allowed'⟩ := mem_filter.mp second
    exact none ⟨a, first, b, second, allowed, allowed', differ⟩
  · rintro ⟨a, first, b, second, allowed, allowed', differ⟩ one
    exact differ (one a (mem_filter.mpr ⟨first, allowed⟩) b
      (mem_filter.mpr ⟨second, allowed'⟩))

theorem resolve_prune_of_allowed (distinct : DistinctIDs t)
    (allowed : ∀ n, resolveRoot casing dp t root = .node n → opts.allows n = true)
    (visible : AmbiguityAllowed casing dp opts t root) :
    resolveRoot casing dp (prune opts t) root = resolveRoot casing dp t root := by
  rw [resolve_direct] at allowed
  rw [resolve_direct, resolve_direct, direct_prune distinct]
  cases direct : directRoot casing dp t root with
  | some n =>
    simp only [direct, Found.node.injEq, forall_eq'] at allowed
    simp [allowed, Option.filter_some]
  | none =>
    simp only [direct] at allowed
    simp only [Option.filter_none]
    by_cases one : OneGroup (matching casing t root)
    · have one' : OneGroup (matching casing (prune opts t) root) := by
        rw [matching_prune]
        exact one_group_filter one _
      rw [find_matching one] at allowed ⊢
      rw [find_matching one', matching_prune, last_found_filter allowed]
    · have mixed := mixed_prune.mpr (visible direct one)
      rw [find_of_mixed one, find_of_mixed mixed]

theorem resolve_hidden (distinct : DistinctIDs t)
    (hidden : ¬ AmbiguityAllowed casing dp opts t root) :
    resolveRoot casing dp t root = .ambiguous ∧ resolveRoot casing dp (prune opts t) root ≠ .ambiguous := by
  unfold AmbiguityAllowed at hidden
  push Not at hidden
  obtain ⟨direct, mixed, none⟩ := hidden
  constructor
  · rw [resolve_direct, direct]
    exact find_of_mixed mixed
  · rw [resolve_direct, direct_prune distinct, direct]
    have one : OneGroup (matching casing (prune opts t) root) := by
      by_contra some
      obtain ⟨a, first, b, second, allowed, allowed', differ⟩ := mixed_prune.mp some
      exact differ (none a first b second allowed allowed')
    simp only [Option.filter_none]
    rw [find_matching one]
    unfold lastFound
    split <;> simp

end Root

/-- Everything a caller is shown: the denial count is left out. -/
def observe (s : Subgraph) : Subgraph := { s with rbacDenied := 0 }

/-- Deleting what the predicate rejects changes nothing a caller is shown. -/
def Noninterfering (casing : Casing) (dp : Option DynamicProvider) (indexed : Bool)
    (opts : NeighborhoodOptions) (t : Graph) (root : ResourceRef) : Prop :=
  (∀ n, resolveRoot casing dp t root = .node n → opts.allows n = true) →
    observe (buildNeighborhoodWithIndex casing (some (prune opts t)) root opts
        (indexFor indexed (prune opts t)) dp) =
      observe (buildNeighborhoodWithIndex casing (some t) root opts (indexFor indexed t) dp)

theorem noninterfering_iff (casing : Casing) (dp : Option DynamicProvider) (indexed : Bool)
    (opts : NeighborhoodOptions) (t : Graph) (root : ResourceRef) (distinct : DistinctIDs t) :
    Noninterfering casing dp indexed opts t root ↔ AmbiguityAllowed casing dp opts t root := by
  constructor
  · intro same
    by_contra hidden
    obtain ⟨ambiguous, resolved⟩ := resolve_hidden distinct hidden
    have equal := congrArg Subgraph.ambiguousRoot (same (by simp [ambiguous]))
    simp only [observe, buildNeighborhoodWithIndex, ambiguous] at equal
    cases pruned : resolveRoot casing dp (prune opts t) root with
    | missing => simp [pruned, emptySubgraph] at equal
    | ambiguous => exact resolved pruned
    | node n =>
      simp only [pruned] at equal
      split at equal <;> simp [emptySubgraph, subgraphFrom] at equal
  · intro visible allowed
    have same := resolve_prune_of_allowed distinct allowed visible
    unfold buildNeighborhoodWithIndex
    simp only [same]
    cases resolved : resolveRoot casing dp t root with
    | missing => rfl
    | ambiguous => rfl
    | node n =>
      have passes := allowed n resolved
      simp only [passes, not_true_eq_false, if_false]
      exact (subgraph_prune distinct indexed root (resolved_member resolved) passes).symm

/-- Two clusters of one kind, namespace and name from different API groups. -/
def asciiCasing : Casing where
  toLower s := String.ofList (s.toList.map Char.toLower)
  equalFold a b := a.toList.map Char.toLower == b.toList.map Char.toLower

def clusterNode (group : String) : Node := ⟨group ++ "/cluster/fleet/prod", "Cluster", "prod", .healthy,
    some [("namespace", .text "fleet"), ("apiVersion", .text (group ++ "/v1"))]⟩

def clusters : Graph := ⟨[clusterNode "cluster.x-k8s.io", clusterNode "cluster.fleet.io"], []⟩

def clusterRef (group : String) : ResourceRef := ⟨"Cluster", "fleet", "prod", group⟩

def onlyFleet : NeighborhoodOptions :=
  ⟨.all, 1, 25, some fun n => nodeAPIGroupFromData n == "cluster.fleet.io"⟩

theorem named_group_noninterfering :
    Noninterfering asciiCasing none false onlyFleet clusters (clusterRef "cluster.fleet.io") := by
  apply (noninterfering_iff asciiCasing none false onlyFleet clusters
    (clusterRef "cluster.fleet.io") (by decide)).mpr
  intro _ mixed
  refine absurd ?_ mixed
  decide

/-- Without a group the denied cluster makes the reference ambiguous, which it is not once the
   cluster is deleted. -/
theorem denied_cluster_interferes :
    ¬ ∀ (t : Graph) (root : ResourceRef) (opts : NeighborhoodOptions), DistinctIDs t →
      Noninterfering asciiCasing none false opts t root := by
  intro claimed
  have same := claimed clusters (clusterRef "") onlyFleet (by decide)
  have ambiguous : resolveRoot asciiCasing none clusters (clusterRef "") = .ambiguous := by decide
  have flags := congrArg Subgraph.ambiguousRoot (same (by simp [ambiguous]))
  exact absurd flags (by decide)

end Neighborhood
