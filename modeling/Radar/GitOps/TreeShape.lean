import Mathlib.Data.List.Pairwise
import Radar.Base.Worklist
import Radar.GitOps.TreeBuilder

/- The GitOps tree's maps: what each holds after the declared and related resources, and after the
   walk along the manages edges. -/
namespace GitOpsTree
open GoText KeyedFold QueryEscape Relation Worklist List
variable {ref : ResourceRef}

section Keys

theorem ref_key_chars (ref : ResourceRef) : (refKey ref).toList =
    join '/' [(queryEscape ref.group).toList, (queryEscape ref.kind).toList,
      (queryEscape ref.namespace_).toList, (queryEscape ref.name).toList] :=
  String.toList_ofList

theorem ref_key_eq_iff {r s : ResourceRef} :
    refKey r = refKey s ↔ r.group = s.group ∧ resourceOf r = resourceOf s := by
  constructor
  · intro same
    have plain : ∀ ref : ResourceRef, ∀ piece ∈ [(queryEscape ref.group).toList,
        (queryEscape ref.kind).toList, (queryEscape ref.namespace_).toList,
        (queryEscape ref.name).toList], '/' ∉ piece := by
      intro ref piece member
      simp only [mem_cons, not_mem_nil, or_false] at member
      rcases member with rfl | rfl | rfl | rfl <;> exact (escape_plain _).1
    have chars := congrArg String.toList same
    rw [ref_key_chars, ref_key_chars] at chars
    have pieces := join_some_inj (cons_ne_nil _ _) (cons_ne_nil _ _) (plain r) (plain s)
      chars
    simp only [cons.injEq, String.toList_inj, and_true] at pieces
    obtain ⟨groups, kinds, namespaces, names⟩ := pieces
    exact ⟨escape_inj groups, by rw [resourceOf, resourceOf, escape_inj kinds,
      escape_inj namespaces, escape_inj names]⟩
  · rintro ⟨groups, resources⟩
    simp only [resourceOf, Prod.mk.injEq] at resources
    obtain ⟨kinds, namespaces, names⟩ := resources
    rw [refKey, refKey, groups, kinds, namespaces, names]

theorem ref_key_nonempty (ref : ResourceRef) : refKey ref ≠ "" := by
  intro empty
  have chars := congrArg String.toList empty
  rw [ref_key_chars] at chars
  simp [join] at chars

theorem ref_key_plain (ref : ResourceRef) : '>' ∉ (refKey ref).toList := by
  rw [ref_key_chars]
  refine join_lacks (by decide) fun piece member => ?_
  simp only [mem_cons, not_mem_nil, or_false] at member
  rcases member with rfl | rfl | rfl | rfl <;> exact (escape_plain _).2

theorem edge_key_inj {s t s' t' : String} (plain : '>' ∉ s.toList) (plain' : '>' ∉ s'.toList)
    (same : edgeKey s t = edgeKey s' t') : s = s' ∧ t = t' := by
  have arrow : "->".toList = ['-', '>'] := rfl
  have chars := congrArg String.toList same
  simp only [edgeKey, String.toList_append, arrow, append_assoc, cons_append,
    nil_append] at chars
  have regroup : ∀ u v : List Char, u ++ '-' :: '>' :: v = (u ++ ['-']) ++ '>' :: v := by simp
  rw [regroup, regroup] at chars
  obtain ⟨sources, targets⟩ := sep_inj (by simpa using plain) (by simpa using plain') chars
  exact ⟨String.toList_inj.mp (append_cancel_right sources), String.toList_inj.mp targets⟩

end Keys

section Topology
variable {b : Builder} {n : Topology.Node}

theorem same_resource {m n : Topology.Node} (member : m ∈ b.topo.nodes) (member' : n ∈ b.topo.nodes)
    (same : resourceOf (refFromTopologyNode m) = resourceOf (refFromTopologyNode n)) : m = n := by
  by_contra differ
  have symm : Std.Symm fun m n : Topology.Node =>
      resourceOf (refFromTopologyNode m) ≠ resourceOf (refFromTopologyNode n) :=
    ⟨fun _ _ other => Ne.symm other⟩
  exact b.topo.resources_distinct.forall member member' differ same

theorem same_topo_id {m n : Topology.Node} (member : m ∈ b.topo.nodes)
    (member' : n ∈ b.topo.nodes) (same : m.id = n.id) : m = n := by
  by_contra differ
  have symm : Std.Symm fun m n : Topology.Node => m.id ≠ n.id := ⟨fun _ _ other => Ne.symm other⟩
  exact b.topo.ids_distinct.forall member member' differ same

theorem topo_by_id_iff {id : String} : topoByID b id = some n ↔ n ∈ b.topo.nodes ∧ n.id = id := by
  constructor
  · intro found
    unfold topoByID at found
    have own := find?_some found
    rw [beq_iff_eq] at own
    exact ⟨mem_of_find?_eq_some found, own⟩
  · rintro ⟨member, rfl⟩
    unfold topoByID
    cases found : b.topo.nodes.find? fun m => m.id == n.id with
    | none =>
      have absent := find?_eq_none.mp found n member
      exact absurd (beq_self_eq_true n.id) absent
    | some m =>
      have own := find?_some found
      rw [beq_iff_eq] at own
      rw [same_topo_id (mem_of_find?_eq_some found) member own]

theorem write_of_key {key : String} (write : (key, n) ∈ topoByRef b) (same : key = refKey ref) :
    n ∈ b.topo.nodes ∧ resourceOf (refFromTopologyNode n) = resourceOf ref := by
  obtain ⟨m, member, made⟩ := mem_flatMap.mp write
  simp only [mem_cons, not_mem_nil, or_false, Prod.mk.injEq] at made
  rcases made with ⟨rfl, rfl⟩ | ⟨rfl, rfl⟩
  · exact ⟨member, (ref_key_eq_iff.mp same).2⟩
  · exact ⟨member, (ref_key_eq_iff.mp same).2⟩

theorem looked_up (found : lookupLast (topoByRef b) (refKey ref) = some n) :
    n ∈ b.topo.nodes ∧ resourceOf (refFromTopologyNode n) = resourceOf ref := by
  obtain ⟨write, hit, rfl⟩ := Option.map_eq_some_iff.mp found
  have own := find?_some hit
  rw [beq_iff_eq] at own
  exact write_of_key (mem_reverse.mp (mem_of_find?_eq_some hit)) own

/-- Whatever its group, a resource has the topology node of its kind, namespace and name. -/
theorem find_topo_iff : findTopoNode b ref = some n ↔
      n ∈ b.topo.nodes ∧ resourceOf (refFromTopologyNode n) = resourceOf ref := by
  have sound : ∀ m, findTopoNode b ref = some m →
      m ∈ b.topo.nodes ∧ resourceOf (refFromTopologyNode m) = resourceOf ref := by
    intro m found
    rcases Option.or_eq_some_iff.mp found with first | ⟨-, second⟩
    · exact looked_up first
    · have groupless := looked_up second
      exact groupless
  constructor
  · exact sound n
  · rintro ⟨member, own⟩
    cases found : findTopoNode b ref with
    | some m =>
      obtain ⟨member', own'⟩ := sound m found
      rw [same_resource member' member (own'.trans own.symm)]
    | none =>
      have unwritten := Option.map_eq_none_iff.mp (Option.or_eq_none_iff.mp found).2
      have write : (refKey (refFromTopologyNode n).groupless, n) ∈ topoByRef b :=
        mem_flatMap.mpr ⟨n, member, by simp⟩
      have missed := find?_eq_none.mp unwritten _ (mem_reverse.mpr write)
      have same : refKey (refFromTopologyNode n).groupless = refKey ref.groupless :=
        ref_key_eq_iff.mpr ⟨rfl, own⟩
      exact absurd (beq_iff_eq.mpr same) missed

theorem find_topo_congr {r s : ResourceRef} (same : resourceOf r = resourceOf s) :
    findTopoNode b r = findTopoNode b s := by
  ext n
  rw [find_topo_iff, find_topo_iff, same]

end Topology

section Assembly
variable {b : Builder} {asm : Assembly} {node : Node} {live : Topology.Node} {s t : String}

def Assembly.Has (asm : Assembly) (x : String) : Prop := ∃ n ∈ asm.nodes, n.id = x

def Assembly.Linked (asm : Assembly) (s t : String) : Prop := ∃ e ∈ asm.edges, e.source = s ∧ e.target = t

def liveID (b : Builder) (ref : ResourceRef) : String := ((findTopoNode b ref).map (·.id)).getD ""

/-- A node carries its own resource's id and leads to that resource's topology node, and every link
from a topology node leads to a node of its resource. -/
structure Consistent (b : Builder) (asm : Assembly) : Prop where
  distinct : (asm.nodes.map Node.id).Nodup
  named : ∀ n ∈ asm.nodes, n.id = nodeID n.ref
  edges_distinct : (asm.edges.map fun e => edgeKey e.source e.target).Nodup
  inside : ∀ s t, asm.Linked s t → asm.Has s ∧ asm.Has t
  live_of : ∀ n ∈ asm.nodes, asm.topoIDByTreeID n.id = liveID b n.ref
  live_node : ∀ x, asm.topoIDByTreeID x ≠ "" → asm.Has x
  tree_of : ∀ live ∈ b.topo.nodes, asm.treeIDByTopoID live.id ≠ "" →
    ∃ n ∈ asm.nodes, n.id = asm.treeIDByTopoID live.id ∧ findTopoNode b n.ref = some live
  tree_node : ∀ n ∈ asm.nodes, ∀ live, findTopoNode b n.ref = some live → asm.treeIDByTopoID live.id ≠ ""

/-- A node together with the link to its topology node, where it has one. -/
def place (b : Builder) (asm : Assembly) (node : Node) : Assembly := match findTopoNode b node.ref with
  | some live => (asm.setNode node).bind node.id live
  | none => asm.setNode node

theorem has_iff {x : String} : asm.has x = true ↔ asm.Has x := by
  simp [Assembly.has, Assembly.Has]

theorem place_live (found : findTopoNode b node.ref = some live) :
    place b asm node = (asm.setNode node).bind node.id live := by
  rw [place, found]

theorem place_dark (found : findTopoNode b node.ref = none) : place b asm node = asm.setNode node := by
  rw [place, found]

theorem place_nodes : (place b asm node).nodes = put Node.id asm.nodes node := by
  unfold place
  split <;> rfl

theorem place_edges : (place b asm node).edges = asm.edges := by
  unfold place
  split <;> rfl

theorem mem_place (consistent : Consistent b asm) {n : Node} :
    n ∈ (place b asm node).nodes ↔ n = node ∨ (n ∈ asm.nodes ∧ n.id ≠ node.id) := by
  rw [place_nodes]
  exact mem_put consistent.distinct node n

theorem place_has (consistent : Consistent b asm) {x : String} :
    (place b asm node).Has x ↔ asm.Has x ∨ x = node.id := by
  constructor
  · rintro ⟨n, member, rfl⟩
    rcases (mem_place consistent).mp member with rfl | ⟨old, _⟩
    · exact .inr rfl
    · exact .inl ⟨n, old, rfl⟩
  · intro either
    by_cases own : x = node.id
    · exact ⟨node, (mem_place consistent).mpr (.inl rfl), own.symm⟩
    · obtain ⟨n, member, rfl⟩ := either.resolve_right own
      exact ⟨n, (mem_place consistent).mpr (.inr ⟨member, own⟩), rfl⟩

theorem place_linked : (place b asm node).Linked s t ↔ asm.Linked s t := by
  unfold Assembly.Linked
  rw [place_edges]

theorem same_id {n m : Node} (named : n.id = nodeID n.ref) (named' : m.id = nodeID m.ref)
    (same : n.id = m.id) : findTopoNode b n.ref = findTopoNode b m.ref := by
  rw [named, named'] at same
  exact find_topo_congr (ref_key_eq_iff.mp same).2

theorem live_id_of (found : findTopoNode b ref = some live) : liveID b ref = live.id := by
  rw [liveID, found]
  rfl

theorem place_topo_other {x : String} (other : x ≠ node.id) :
    (place b asm node).topoIDByTreeID x = asm.topoIDByTreeID x := by
  unfold place
  split
  next => exact if_neg other
  next => rfl

theorem place_topo_own (consistent : Consistent b asm) (own : node.id = nodeID node.ref) :
    (place b asm node).topoIDByTreeID node.id = liveID b node.ref := by
  cases found : findTopoNode b node.ref with
  | some live =>
    rw [place_live found, live_id_of found]
    exact if_pos rfl
  | none =>
    -- an id that leads to a topology node is a node's, and that node has the same resource
    have unbound : asm.topoIDByTreeID node.id = "" := by
      by_contra bound
      obtain ⟨m, held, same⟩ := consistent.live_node node.id bound
      rw [← same, consistent.live_of m held, liveID,
        same_id (consistent.named m held) own same, found] at bound
      exact bound rfl
    rw [place_dark found, liveID, found]
    exact unbound

theorem place_tree_own (found : findTopoNode b node.ref = some live) :
    (place b asm node).treeIDByTopoID live.id = node.id := by
  rw [place_live found]
  exact if_pos rfl

theorem place_tree_other (member : live ∈ b.topo.nodes) (other : findTopoNode b node.ref ≠ some live) :
    (place b asm node).treeIDByTopoID live.id = asm.treeIDByTopoID live.id := by
  cases found : findTopoNode b node.ref with
  | none =>
    rw [place_dark found]
    rfl
  | some live' =>
    have differ : live.id ≠ live'.id := by
      intro equal
      obtain rfl := same_topo_id member (find_topo_iff.mp found).1 equal
      exact other found
    rw [place_live found]
    exact if_neg differ

theorem place_consistent (consistent : Consistent b asm) (own : node.id = nodeID node.ref) :
    Consistent b (place b asm node) where
  distinct := by
    rw [place_nodes]
    exact put_nodup consistent.distinct node
  named := by
    intro n member
    rcases (mem_place consistent).mp member with rfl | ⟨old, _⟩
    · exact own
    · exact consistent.named n old
  edges_distinct := by
    rw [place_edges]
    exact consistent.edges_distinct
  inside := by
    intro s t linked
    obtain ⟨source, target⟩ := consistent.inside s t (place_linked.mp linked)
    exact ⟨(place_has consistent).mpr (.inl source), (place_has consistent).mpr (.inl target)⟩
  live_of := by
    intro n member
    rcases (mem_place consistent).mp member with rfl | ⟨old, other⟩
    · exact place_topo_own consistent own
    · rw [place_topo_other other]
      exact consistent.live_of n old
  live_node := by
    intro x bound
    refine (place_has consistent).mpr (Classical.or_iff_not_imp_right.mpr fun other => ?_)
    rw [place_topo_other other] at bound
    exact consistent.live_node x bound
  tree_of := by
    intro live member bound
    by_cases mine : findTopoNode b node.ref = some live
    · exact ⟨node, (mem_place consistent).mpr (.inl rfl), (place_tree_own mine).symm, mine⟩
    · rw [place_tree_other member mine] at bound ⊢
      obtain ⟨n, held, same, found⟩ := consistent.tree_of live member bound
      have other : n.id ≠ node.id := fun equal => mine (same_id (consistent.named n held) own equal ▸ found)
      exact ⟨n, (mem_place consistent).mpr (.inr ⟨held, other⟩), same, found⟩
  tree_node := by
    intro n member live found
    by_cases mine : findTopoNode b node.ref = some live
    · rw [place_tree_own mine, own]
      exact ref_key_nonempty node.ref
    · rw [place_tree_other (find_topo_iff.mp found).1 mine]
      rcases (mem_place consistent).mp member with rfl | ⟨old, _⟩
      · exact absurd found mine
      · exact consistent.tree_node n old live found

theorem linked_plain (consistent : Consistent b asm) (linked : asm.Linked s t) : '>' ∉ s.toList := by
  obtain ⟨n, member, rfl⟩ := (consistent.inside s t linked).1
  rw [consistent.named n member]
  exact ref_key_plain n.ref

theorem edge_linked (consistent : Consistent b asm) {x y : String} {type : EdgeType}
    (source : asm.Has x) :
    (asm.setEdge ⟨x, y, type⟩).Linked s t ↔ asm.Linked s t ∨ (x = s ∧ y = t) := by
  have plain : '>' ∉ x.toList := by
    obtain ⟨n, member, own⟩ := source
    rw [← own, consistent.named n member]
    exact ref_key_plain n.ref
  have written : ∀ f : Edge, f ∈ (asm.setEdge ⟨x, y, type⟩).edges ↔ f = ⟨x, y, type⟩ ∨
      (f ∈ asm.edges ∧ edgeKey f.source f.target ≠ edgeKey x y) :=
    mem_put consistent.edges_distinct ⟨x, y, type⟩
  constructor
  · rintro ⟨f, member, ends⟩
    rcases (written f).mp member with rfl | ⟨old, _⟩
    · exact .inr ends
    · exact .inl ⟨f, old, ends⟩
  · rintro (⟨f, old, rfl, rfl⟩ | ends)
    · by_cases same : edgeKey f.source f.target = edgeKey x y
      · obtain ⟨sources, targets⟩ := edge_key_inj (linked_plain consistent ⟨f, old, rfl, rfl⟩) plain same
        exact ⟨⟨x, y, type⟩, (written _).mpr (.inl rfl), sources.symm, targets.symm⟩
      · exact ⟨f, (written f).mpr (.inr ⟨old, same⟩), rfl, rfl⟩
    · exact ⟨⟨x, y, type⟩, (written _).mpr (.inl rfl), ends⟩

theorem edge_consistent (consistent : Consistent b asm) {x y : String} {type : EdgeType}
    (source : asm.Has x) (target : asm.Has y) : Consistent b (asm.setEdge ⟨x, y, type⟩) :=
  { consistent with
    edges_distinct := put_nodup consistent.edges_distinct ⟨x, y, type⟩
    inside := by
      intro s t linked
      rcases (edge_linked consistent source).mp linked with old | ⟨rfl, rfl⟩
      · exact consistent.inside s t old
      · exact ⟨source, target⟩ }

end Assembly

section Declared
variable {b : Builder} {asm : Assembly} {root : RootObject} {tool : Tool}

def shownHealth (b : Builder) (ref : ResourceRef) (health : String) : String :=
  if health = "" then ((findTopoNode b ref).map fun live => healthFromTopology live.status).getD ""
  else health

/-- The node of a resource that the root names, whether or not it has a topology node. -/
def declaredNode (b : Builder) (tool : Tool) (ref : ResourceRef) (sync health : String) : Node :=
  enrichNodeFromObject
    (match findTopoNode b ref with
      | some live => nodeFromTopology live ref .declared tool sync health
      | none => syntheticNode ref .declared tool sync health)
    (b.getAllowedObject ref)

def Carries (b : Builder) (n : Node) (ref : ResourceRef) (sync health : String) : Prop :=
  n.role = .declared ∧ n.sync = sync ∧ n.health = shownHealth b ref health

variable {sync health : String}

theorem enriched (node : Node) (obj : Option LiveObject) : (enrichNodeFromObject node obj).id = node.id ∧
      nodeID (enrichNodeFromObject node obj).ref = nodeID node.ref ∧
      (enrichNodeFromObject node obj).role = node.role ∧
      (enrichNodeFromObject node obj).sync = node.sync ∧
      (enrichNodeFromObject node obj).health = node.health := by
  cases obj <;> exact ⟨rfl, rfl, rfl, rfl, rfl⟩

theorem declared_node_id : (declaredNode b tool ref sync health).id = nodeID ref := by
  rw [declaredNode, (enriched _ _).1]
  split <;> rfl

theorem declared_node_ref : nodeID (declaredNode b tool ref sync health).ref = nodeID ref := by
  rw [declaredNode, (enriched _ _).2.1]
  split <;> rfl

theorem declared_node_found :
    findTopoNode b (declaredNode b tool ref sync health).ref = findTopoNode b ref :=
  find_topo_congr (ref_key_eq_iff.mp declared_node_ref).2

theorem declared_node_carries : Carries b (declaredNode b tool ref sync health) ref sync health := by
  obtain ⟨-, -, roles, syncs, healths⟩ := enriched
    (match findTopoNode b ref with
      | some live => nodeFromTopology live ref .declared tool sync health
      | none => syntheticNode ref .declared tool sync health) (b.getAllowedObject ref)
  unfold Carries declaredNode
  rw [roles, syncs, healths, shownHealth]
  cases found : findTopoNode b ref with
  | some live => exact ⟨rfl, rfl, rfl⟩
  | none =>
    refine ⟨rfl, rfl, ?_⟩
    by_cases empty : health = "" <;> simp [syntheticNode, empty]

theorem declare_eq (res : ManagedResource) :
    declare b tool asm res = place b asm (declaredNode b tool res.ref res.sync res.health) := by
  cases found : findTopoNode b res.ref with
  | some live =>
    rw [place_live (declared_node_found.trans found), declared_node_id]
    simp only [declare, declaredNode, placeLive, found]
  | none =>
    rw [place_dark (declared_node_found.trans found)]
    simp only [declare, declaredNode, placeSynthetic, found]

def empty : Assembly := ⟨[], [], fun _ => "", fun _ => ""⟩

theorem empty_consistent : Consistent b empty where
  distinct := nodup_nil
  named := fun _ member => absurd member not_mem_nil
  edges_distinct := nodup_nil
  inside := fun _ _ ⟨_, member, _⟩ => absurd member not_mem_nil
  live_of := fun _ member => absurd member not_mem_nil
  live_node := fun _ bound => absurd rfl bound
  tree_of := fun _ _ bound => absurd rfl bound
  tree_node := fun _ member => absurd member not_mem_nil

theorem start_eq : start b root tool = place b empty (rootNode root tool) := by
  have first : put Node.id [] (rootNode root tool) = [rootNode root tool] := by
    simp [put, replacing, Folding.insert]
  have same : findTopoNode b (rootNode root tool).ref = findTopoNode b root.ref := rfl
  cases found : findTopoNode b root.ref with
  | some live =>
    rw [place_live (same.trans found)]
    simp only [start, found, Assembly.setNode, empty, first]
  | none =>
    rw [place_dark (same.trans found)]
    simp only [start, found, Assembly.setNode, empty, first]

/-- The last listing of an id is the one whose state counts. -/
def lastListed (managed : List ManagedResource) (x : String) : Option ManagedResource :=
  managed.reverse.find? fun res => nodeID res.ref == x

/-- What the maps hold once so many declared and related resources are in. -/
structure Assembled (b : Builder) (root : RootObject) (tool : Tool) (managed : List ManagedResource)
    (related : List RelatedResource) (asm : Assembly) : Prop where
  consistent : Consistent b asm
  ids : ∀ x, asm.Has x ↔ x = nodeID root.ref ∨ (∃ res ∈ managed, nodeID res.ref = x) ∨
    ∃ rel ∈ related, nodeID rel.ref = x
  root_kept : (∀ res ∈ managed, nodeID res.ref ≠ nodeID root.ref) → rootNode root tool ∈ asm.nodes
  roles : ∀ n ∈ asm.nodes, n.role = .declared ∨ n = rootNode root tool
  states : ∀ n ∈ asm.nodes, (n.id = nodeID root.ref ∨ ∀ rel ∈ related, nodeID rel.ref ≠ n.id) →
    ∀ res, lastListed managed n.id = some res → Carries b n res.ref res.sync res.health
  linked : ∀ s t, asm.Linked s t ↔
    s = nodeID root.ref ∧ t ≠ nodeID root.ref ∧ ∃ rel ∈ related, nodeID rel.ref = t

variable {managed : List ManagedResource} {related : List RelatedResource}

theorem start_assembled : Assembled b root tool [] [] (start b root tool) := by
  have member : ∀ n, n ∈ (start b root tool).nodes ↔ n = rootNode root tool := by
    intro n
    rw [start_eq, mem_place empty_consistent]
    simp [empty]
  exact {
    consistent := start_eq ▸ place_consistent empty_consistent rfl
    ids := by
      intro x
      rw [start_eq, place_has empty_consistent]
      simp [Assembly.Has, empty, rootNode]
    root_kept := fun _ => (member _).mpr rfl
    roles := fun n held => .inr ((member n).mp held)
    states := fun n _ _ res listed => absurd listed (by simp [lastListed])
    linked := by
      intro s t
      rw [start_eq, place_linked]
      simp [Assembly.Linked, empty] }

theorem declare_assembled (before : Assembled b root tool managed [] asm) (res : ManagedResource) :
    Assembled b root tool (managed ++ [res]) [] (declare b tool asm res) := by
  have consistent := before.consistent
  have last : ∀ x, lastListed (managed ++ [res]) x =
      if nodeID res.ref = x then some res else lastListed managed x := by
    intro x
    rw [lastListed, reverse_append, reverse_singleton, singleton_append, find?_cons]
    by_cases own : nodeID res.ref = x
    · rw [if_pos own, beq_iff_eq.mpr own]
    · rw [if_neg own, beq_eq_false_iff_ne.mpr own]
      rfl
  have own : (declaredNode b tool res.ref res.sync res.health).id = nodeID res.ref := declared_node_id
  rw [declare_eq]
  exact {
    consistent := place_consistent consistent (own.trans declared_node_ref.symm)
    ids := by
      intro x
      rw [place_has consistent, before.ids, own]
      simp only [mem_append, mem_singleton, or_and_right, exists_or, exists_eq_left,
        not_mem_nil, false_and, exists_false, or_false, or_assoc, eq_comm (a := x)]
    root_kept := by
      intro others
      have other : (rootNode root tool).id ≠ nodeID res.ref :=
        Ne.symm (others res (mem_append_right _ mem_cons_self))
      refine (mem_place consistent).mpr (.inr ⟨before.root_kept fun r listed => ?_, ?_⟩)
      · exact others r (mem_append_left _ listed)
      · rw [own]
        exact other
    roles := by
      intro n member
      rcases (mem_place consistent).mp member with rfl | ⟨old, _⟩
      · exact .inl declared_node_carries.1
      · exact before.roles n old
    states := by
      intro n member _ res' listed
      rw [last] at listed
      rcases (mem_place consistent).mp member with rfl | ⟨old, other⟩
      · rw [if_pos own.symm] at listed
        rw [← Option.some.inj listed]
        exact declared_node_carries
      · rw [if_neg (own ▸ Ne.symm other)] at listed
        exact before.states n old (.inr fun _ none_ => absurd none_ not_mem_nil) res' listed
    linked := by
      intro s t
      rw [place_linked]
      exact before.linked s t }

/-- Before its edge is in, a related resource has its node and no other node has changed. -/
structure Joined (b : Builder) (asm mid : Assembly) (id : String) : Prop where
  consistent : Consistent b mid
  ids : ∀ x, mid.Has x ↔ asm.Has x ∨ x = id
  origin : ∀ n ∈ mid.nodes, n ∈ asm.nodes ∨ (n.id = id ∧ n.role = .declared)
  kept : ∀ n ∈ asm.nodes, n.id ≠ id → n ∈ mid.nodes
  linked : ∀ s t, mid.Linked s t ↔ asm.Linked s t

theorem relate_cases (consistent : Consistent b asm) {rootID : String} (rel : RelatedResource)
    (other : nodeID rel.ref ≠ rootID) : ∃ mid, Joined b asm mid (nodeID rel.ref) ∧
      relate b rootID asm rel = mid.setEdge ⟨rootID, nodeID rel.ref, rel.type⟩ := by
  have placed : ∀ sync health, Joined b asm
      (place b asm (declaredNode b .fluxcd rel.ref sync health)) (nodeID rel.ref) := by
    intro sync health
    have own : (declaredNode b .fluxcd rel.ref sync health).id = nodeID rel.ref := declared_node_id
    exact {
      consistent := place_consistent consistent (own.trans declared_node_ref.symm)
      ids := fun x => by rw [place_has consistent, own]
      origin := by
        intro n member
        rcases (mem_place consistent).mp member with rfl | ⟨old, _⟩
        · exact .inr ⟨own, declared_node_carries.1⟩
        · exact .inl old
      kept := fun n member differ => (mem_place consistent).mpr (.inr ⟨member, own.symm ▸ differ⟩)
      linked := fun s t => place_linked }
  unfold relate
  rw [if_neg other]
  generalize ((b.getAllowedObject rel.ref).map fun obj => (obj.sync, obj.health)).getD ("", "") = state
  obtain ⟨sync, health⟩ := state
  cases found : findTopoNode b rel.ref with
  | some live =>
    refine ⟨_, placed sync health, ?_⟩
    rw [place_live (declared_node_found.trans found), declared_node_id]
    simp only [placeLive, declaredNode, found]
  | none =>
    by_cases there : asm.has (nodeID rel.ref) = true
    · refine ⟨asm, ?_, by simp only [there, if_true]⟩
      exact {
        consistent := consistent
        ids := fun x => ⟨.inl, fun either => either.elim id fun own => own ▸ has_iff.mp there⟩
        origin := fun n member => .inl member
        kept := fun n member _ => member
        linked := fun s t => Iff.rfl }
    · refine ⟨_, placed sync health, ?_⟩
      rw [place_dark (declared_node_found.trans found)]
      simp only [there, if_false, placeSynthetic, declaredNode, found, Bool.false_eq_true]

theorem listed_append (rel : RelatedResource) (x : String) : (∃ r ∈ related ++ [rel], nodeID r.ref = x) ↔
      (∃ r ∈ related, nodeID r.ref = x) ∨ nodeID rel.ref = x := by
  simp [or_and_right, exists_or]

/-- The root listed among its own related resources changes nothing. -/
theorem root_assembled (before : Assembled b root tool managed related asm) {rel : RelatedResource}
    (own : nodeID rel.ref = nodeID root.ref) :
    Assembled b root tool managed (related ++ [rel]) asm :=
  { before with
    ids := by
      intro x
      rw [before.ids, listed_append, own]
      constructor
      · rintro (root_ | managed_ | related_)
        · exact .inl root_
        · exact .inr (.inl managed_)
        · exact .inr (.inr (.inl related_))
      · rintro (root_ | managed_ | related_ | root_)
        · exact .inl root_
        · exact .inr (.inl managed_)
        · exact .inr (.inr related_)
        · exact .inl root_.symm
    states := fun n member free => before.states n member
      (free.imp_right fun others r old => others r (mem_append_left _ old))
    linked := by
      intro s t
      rw [before.linked, listed_append]
      constructor
      · rintro ⟨source, differ, related_⟩
        exact ⟨source, differ, .inl related_⟩
      · rintro ⟨source, differ, related_ | same⟩
        · exact ⟨source, differ, related_⟩
        · exact absurd (same.symm.trans own) differ }

theorem joined_assembled (before : Assembled b root tool managed related asm) {mid : Assembly}
    {rel : RelatedResource} (own : nodeID rel.ref ≠ nodeID root.ref)
    (joined : Joined b asm mid (nodeID rel.ref)) :
    Assembled b root tool managed (related ++ [rel])
      (mid.setEdge ⟨nodeID root.ref, nodeID rel.ref, rel.type⟩) := by
  have source : mid.Has (nodeID root.ref) := (joined.ids _).mpr (.inl ((before.ids _).mpr (.inl rfl)))
  have target : mid.Has (nodeID rel.ref) := (joined.ids _).mpr (.inr rfl)
  exact {
    consistent := edge_consistent joined.consistent source target
    ids := by
      intro x
      have same : (mid.setEdge ⟨nodeID root.ref, nodeID rel.ref, rel.type⟩).Has x ↔ mid.Has x := Iff.rfl
      rw [same, joined.ids, before.ids, listed_append, or_assoc, or_assoc, @eq_comm _ x (nodeID rel.ref)]
    root_kept := fun others => joined.kept _ (before.root_kept others) (Ne.symm own)
    roles := by
      intro n member
      rcases joined.origin n member with old | ⟨_, role⟩
      · exact before.roles n old
      · exact .inl role
    states := by
      intro n member free res last
      rcases joined.origin n member with old | ⟨same, _⟩
      · refine before.states n old (free.imp_right fun others r held => ?_) res last
        exact others r (mem_append_left _ held)
      · rcases free with root_ | others
        · exact absurd (same.symm.trans root_) own
        · exact absurd same.symm (others rel (mem_append_right _ mem_cons_self))
    linked := by
      intro s t
      rw [edge_linked joined.consistent source, joined.linked, before.linked, listed_append]
      constructor
      · rintro (⟨root_, differ, related_⟩ | ⟨rfl, rfl⟩)
        · exact ⟨root_, differ, .inl related_⟩
        · exact ⟨rfl, own, .inr rfl⟩
      · rintro ⟨rfl, differ, related_ | rfl⟩
        · exact .inl ⟨rfl, differ, related_⟩
        · exact .inr ⟨rfl, rfl⟩ }

theorem relate_assembled (before : Assembled b root tool managed related asm)
    (rel : RelatedResource) :
    Assembled b root tool managed (related ++ [rel]) (relate b (nodeID root.ref) asm rel) := by
  by_cases own : nodeID rel.ref = nodeID root.ref
  · rw [relate, if_pos own]
    exact root_assembled before own
  · obtain ⟨mid, joined, result⟩ := relate_cases before.consistent rel own
    rw [result]
    exact joined_assembled before own joined

theorem assembled (b : Builder) (root : RootObject) (inventory : Inventory) :
    Assembled b root inventory.tool inventory.managed inventory.related
      (assemble b root inventory) := by
  have managed : Assembled b root inventory.tool inventory.managed []
      (inventory.managed.foldl (declare b inventory.tool) (start b root inventory.tool)) := by
    induction inventory.managed using reverseRecOn with
    | nil => exact start_assembled
    | append_singleton managed res ih =>
      rw [foldl_concat]
      exact declare_assembled ih res
  unfold assemble
  induction inventory.related using reverseRecOn with
  | nil => exact managed
  | append_singleton related rel ih =>
    rw [foldl_concat]
    exact relate_assembled ih rel

end Declared
end GitOpsTree
