import Radar.GitOps.TreeWalk

/- What a GitOps tree is, given the root, what it lists and the live topology. -/
namespace GitOpsTree
open Arrange KeyedFold Relation Worklist List
variable {live : Topology.Node}

section Meaning
variable (b : Builder) (root : RootObject) (inventory : Inventory)

def Manages (s t : Topology.Node) : Prop := s ∈ b.topo.nodes ∧ t ∈ b.topo.nodes ∧
    ∃ e ∈ b.topo.edges, e.type = .manages ∧ e.source = s.id ∧ e.target = t.id

/-- The topology node of a resource: the live one of its kind, namespace and name. -/
def IsLive (live : Topology.Node) (ref : ResourceRef) : Prop :=
  resourceOf (refFromTopologyNode live) = resourceOf ref

instance (live : Topology.Node) (ref : ResourceRef) : Decidable (IsLive live ref) :=
  inferInstanceAs (Decidable (resourceOf (refFromTopologyNode live) = resourceOf ref))

/-- The walk starts at the managed resources, and at the root when there are none. -/
def walkStarts : List ResourceRef :=
  if inventory.managed = [] then [root.ref] else inventory.managed.map (·.ref)

def namedRefs : List ResourceRef :=
  root.ref :: (inventory.managed.map (·.ref) ++ inventory.related.map (·.ref))

def Owned (live : Topology.Node) : Prop :=
  ∃ ref ∈ walkStarts root inventory, ∃ s ∈ b.topo.nodes, IsLive s ref ∧ TransGen (Manages b) s live

/-- A topology node that does not stand for the root alone. -/
def BesideRoot (live : Topology.Node) : Prop :=
  ¬ IsLive live root.ref ∨ ∃ ref ∈ namedRefs root inventory, IsLive live ref ∧ nodeID ref ≠ nodeID root.ref

/-- No live resource other than the root manages itself through others than the root. -/
def Acyclic : Prop := ∀ live, ¬ TransGen (fun s t => Manages b s t ∧ BesideRoot root inventory t) live live

def ResourceTree.Linked (tree : ResourceTree) (s t : String) : Prop :=
  ∃ e ∈ tree.edges, e.source = s ∧ e.target = t

structure WellFormed (tree : ResourceTree) : Prop where
  ids_distinct : (tree.nodes.map Node.id).Nodup
  root_there : tree.root ∈ tree.nodes ∧ tree.root.id = nodeID root.ref
  one_root : nodeID root.ref ∉ declaredIDs inventory →
    tree.root = rootNode root inventory.tool ∧ ∀ n ∈ tree.nodes, (n.role = .root ↔ n = tree.root)
  declared : ∀ res ∈ inventory.managed, ∃ n ∈ tree.nodes, n.id = nodeID res.ref ∧ n.role = .declared
  states : ∀ n ∈ tree.nodes, (∀ rel ∈ inventory.related, nodeID rel.ref ≠ n.id) →
    ∀ res, lastListed inventory.managed n.id = some res → Carries b n res.ref res.sync res.health
  edges_inside : ∀ s t, tree.Linked s t → (∃ n ∈ tree.nodes, n.id = s) ∧ ∃ n ∈ tree.nodes, n.id = t
  reached : Acyclic b root inventory → ∀ n ∈ tree.nodes, ReflTransGen tree.Linked tree.root.id n.id
  generated : ∀ n, n ∈ tree.nodes ∧ n.role = .generated ↔
    ∃ live, Owned b root inventory live ∧ (∀ ref ∈ namedRefs root inventory, ¬ IsLive live ref) ∧
      n = generatedNode inventory.tool live

end Meaning

section Reach
variable {b : Builder} {root : RootObject} {inventory : Inventory} {queue : List String}

theorem owned_iff {s t : Topology.Node} (member : s ∈ b.topo.nodes) : t ∈ owned b s.id ↔ Manages b s t := by
  unfold owned
  rw [if_neg (b.topo.ids_nonempty s member), mem_filterMap]
  unfold adj
  simp only [mem_filter, Bool.and_eq_true, beq_iff_eq, topo_by_id_iff]
  constructor
  · rintro ⟨e, ⟨held, type, source⟩, known, target⟩
    exact ⟨member, known, e, held, type, source, target.symm⟩
  · rintro ⟨_, known, e, held, type, source, target⟩
    exact ⟨e, ⟨held, type, source⟩, known, target.symm⟩

theorem named_iff (x : String) : (assemble b root inventory).Has x ↔
    ∃ ref ∈ namedRefs root inventory, nodeID ref = x := by
  rw [(assembled b root inventory).ids]
  simp only [namedRefs, mem_cons, mem_append, mem_map, or_and_right, exists_or,
    exists_eq_left, exists_exists_and_eq_and, eq_comm (a := x)]

theorem live_of_ref {ref : ResourceRef} (named : ref ∈ namedRefs root inventory) :
    liveIDOf b (assemble b root inventory) (nodeID ref) = liveID b ref := by
  have consistent := (assembled b root inventory).consistent
  have has : (assemble b root inventory).Has (nodeID ref) := (named_iff _).mpr ⟨ref, named, rfl⟩
  have begun : Grown b inventory.tool (assemble b root inventory) (fun _ _ => False)
      (assemble b root inventory) :=
    { consistent := consistent
      nodes := fun n => by simp
      linked := fun s x => by simp
      tree_ids := fun _ _ => .inl rfl
      known := fun s live pair => pair.elim }
  rw [← live_agrees consistent begun has]
  obtain ⟨n, member, same⟩ := has
  rw [← same, consistent.live_of n member, liveID, liveID]
  rw [find_topo_congr (ref_key_eq_iff.mp ((consistent.named n member).symm.trans same)).2]

/-- The id under which the walk comes to a topology node leads to this topology node. -/
theorem live_of_tree (member : live ∈ b.topo.nodes) :
    liveIDOf b (assemble b root inventory) (treeIDOf (assemble b root inventory) live) = live.id := by
  have consistent := (assembled b root inventory).consistent
  unfold treeIDOf
  split
  next fresh =>
    have unbound : (assemble b root inventory).topoIDByTreeID
        (nodeID (refFromTopologyNode live)) = "" := by
      by_contra bound
      obtain ⟨n, held, same⟩ := consistent.live_node _ bound
      refine consistent.tree_node n held live ?_ fresh
      rw [← found_self member]
      exact find_topo_congr (ref_key_eq_iff.mp ((consistent.named n held).symm.trans same)).2
    rw [liveIDOf, if_pos unbound]
    cases found : b.topo.nodes.find? fun other =>
        nodeID (refFromTopologyNode other) == nodeID (refFromTopologyNode live) with
    | none =>
      exact absurd (beq_iff_eq.mpr rfl) (find?_eq_none.mp found live member)
    | some other =>
      have own := find?_some found
      rw [beq_iff_eq] at own
      rw [same_resource (mem_of_find?_eq_some found) member (ref_key_eq_iff.mp own).2]
      rfl
  next bound =>
    obtain ⟨n, held, same, found⟩ := consistent.tree_of live member bound
    have leads : (assemble b root inventory).topoIDByTreeID n.id = live.id :=
      (consistent.live_of n held).trans (live_id_of found)
    rw [liveIDOf, ← same, leads, if_neg (b.topo.ids_nonempty live member)]

/-- The ids taken up lead to a topology node exactly where the walk's starts own it. -/
theorem taken_iff (starts : ∀ x, x ∈ queue ↔ ∃ ref ∈ walkStarts root inventory, nodeID ref = x) :
    (∃ s, Reached (next b (assemble b root inventory)) queue s ∧
      live ∈ owned b (liveIDOf b (assemble b root inventory) s)) ↔ Owned b root inventory live := by
  have named : ∀ ref ∈ walkStarts root inventory, ref ∈ namedRefs root inventory := by
    intro ref member
    unfold walkStarts at member
    split at member
    next =>
      rw [mem_singleton.mp member]
      exact mem_cons_self
    next => exact mem_cons_of_mem _ (mem_append_left _ member)
  constructor
  · rintro ⟨s, ⟨q, queued, path⟩, held⟩
    -- along the path every id but the first is that of a topology node owned by a start
    induction path generalizing live with
    | refl =>
      obtain ⟨ref, start, rfl⟩ := (starts q).mp queued
      rw [live_of_ref (named ref start)] at held
      cases found : findTopoNode b ref with
      | none =>
        rw [liveID, found] at held
        exact absurd held not_mem_nil
      | some first =>
        obtain ⟨member, own⟩ := find_topo_iff.mp found
        rw [live_id_of found, owned_iff member] at held
        exact ⟨ref, start, first, member, own, .single held⟩
    | tail _ successor ih =>
      obtain ⟨mid, held', rfl⟩ := mem_map.mp successor
      obtain ⟨ref, start, first, member, own, owns⟩ := ih held'
      have known : mid ∈ b.topo.nodes := owned_known held'
      rw [live_of_tree known, owned_iff known] at held
      exact ⟨ref, start, first, member, own, owns.tail held⟩
  · rintro ⟨ref, start, first, member, own, owns⟩
    have found : findTopoNode b ref = some first := find_topo_iff.mpr ⟨member, own⟩
    have leads : liveIDOf b (assemble b root inventory) (nodeID ref) = first.id :=
      (live_of_ref (named ref start)).trans (live_id_of found)
    induction owns with
    | single manages =>
      refine ⟨nodeID ref, ⟨nodeID ref, (starts _).mpr ⟨ref, start, rfl⟩, .refl⟩, ?_⟩
      rw [leads, owned_iff member]
      exact manages
    | tail _ manages ih =>
      obtain ⟨s, ⟨q, queued, path⟩, held⟩ := ih
      refine ⟨_, ⟨q, queued, path.tail (mem_map.mpr ⟨_, held, rfl⟩)⟩, ?_⟩
      rw [live_of_tree manages.1, owned_iff manages.1]
      exact manages

end Reach

section Attached
variable {b : Builder} {asm : Assembly} {rootID : String}

/-- The last edges go from the root to the declared ids that nothing has come to. -/
theorem attach_spec (consistent : Consistent b asm) (source : asm.Has rootID) (order : List String)
    (inside : ∀ x ∈ order, asm.Has x) :
    Consistent b (attach rootID asm order) ∧ (attach rootID asm order).nodes = asm.nodes ∧
      ∀ s x, (attach rootID asm order).Linked s x ↔ asm.Linked s x ∨
        (s = rootID ∧ x ∈ order ∧ x ≠ rootID ∧ ∀ p, ¬ asm.Linked p x) := by
  induction order using reverseRecOn with
  | nil => exact ⟨consistent, rfl, fun s x => by simp [attach]⟩
  | append_singleton order id ih =>
    obtain ⟨consistent', nodes, linked⟩ := ih fun x member => inside x (mem_append_left _ member)
    have one : attach rootID asm (order ++ [id]) =
        if id = rootID || asm.edges.any (fun e => e.target == id) then attach rootID asm order
        else (attach rootID asm order).setEdge ⟨rootID, id, .owns⟩ := by
      rw [attach, foldl_concat]
      rfl
    have owned_already : (id = rootID || asm.edges.any fun e => e.target == id) = true ↔
        id = rootID ∨ ∃ p, asm.Linked p id := by
      simp [Assembly.Linked]
    rw [one]
    by_cases skipped : id = rootID ∨ ∃ p, asm.Linked p id
    · rw [if_pos (owned_already.mpr skipped)]
      refine ⟨consistent', nodes, fun s x => ?_⟩
      rw [linked]
      simp only [mem_append, mem_singleton]
      constructor
      · rintro (old | ⟨root_, member, rest⟩)
        · exact .inl old
        · exact .inr ⟨root_, .inl member, rest⟩
      · rintro (old | ⟨root_, member, other, free⟩)
        · exact .inl old
        · refine .inr ⟨root_, member.resolve_right fun same => ?_, other, free⟩
          rcases skipped with own | ⟨p, held⟩
          · exact other (same.trans own)
          · exact free p (same ▸ held)
    · rw [if_neg (fun skip => skipped (owned_already.mp skip))]
      obtain ⟨other, free⟩ := not_or.mp skipped
      have there : ∀ x, (attach rootID asm order).Has x ↔ asm.Has x := by
        intro x
        rw [Assembly.Has, nodes]
        rfl
      have target : (attach rootID asm order).Has id :=
        (there id).mpr (inside id (mem_append_right _ mem_cons_self))
      refine ⟨edge_consistent consistent' ((there _).mpr source) target, nodes, fun s x => ?_⟩
      rw [edge_linked consistent' ((there _).mpr source), linked]
      simp only [mem_append, mem_singleton]
      constructor
      · rintro ((old | ⟨root_, member, rest⟩) | ⟨rfl, rfl⟩)
        · exact .inl old
        · exact .inr ⟨root_, .inl member, rest⟩
        · exact .inr ⟨rfl, .inr rfl, other, fun p held => free ⟨p, held⟩⟩
      · rintro (old | ⟨rfl, member | rfl, rest⟩)
        · exact .inl (.inl old)
        · exact .inl (.inr ⟨rfl, member, rest⟩)
        · exact .inr ⟨rfl, rfl⟩

end Attached

section Rooted
variable {b : Builder} {root : RootObject} {inventory : Inventory} {order : List String}

/-- The walk's pairs: from an id taken up to a topology node that its own one manages. -/
def Came (b : Builder) (root : RootObject) (inventory : Inventory) (order : List String) (s : String)
    (live : Topology.Node) : Prop :=
  s ∈ (explore b root inventory order).seen ∧ live ∈ owned b (liveIDOf b (assemble b root inventory) s)

theorem queue_starts (listed : ∀ x, x ∈ order ↔ x ∈ declaredIDs inventory) (x : String) :
    x ∈ (if order.length = 0 then [nodeID root.ref] else order) ↔
      ∃ ref ∈ walkStarts root inventory, nodeID ref = x := by
  unfold walkStarts
  by_cases none_ : inventory.managed = []
  · have empty : order = [] := eq_nil_iff_forall_not_mem.mpr fun y member => by
      have declared := (listed y).mp member
      rw [declaredIDs, none_] at declared
      exact absurd declared not_mem_nil
    rw [if_pos none_, empty]
    simp [eq_comm]
  · have some_ : order.length ≠ 0 := by
      obtain ⟨res, member⟩ := exists_mem_of_ne_nil _ none_
      have declared : nodeID res.ref ∈ declaredIDs inventory := mem_map.mpr ⟨res, member, rfl⟩
      exact Nat.ne_of_gt (length_pos_of_mem ((listed _).mpr declared))
    rw [if_neg none_, if_neg some_, listed]
    simp [declaredIDs]

theorem explored (listed : ∀ x, x ∈ order ↔ x ∈ declaredIDs inventory) :
    Grown b inventory.tool (assemble b root inventory) (Came b root inventory order)
        (explore b root inventory order).asm ∧
      ∀ live, (∃ s, Came b root inventory order s live) ↔ Owned b root inventory live := by
  have starts : ∀ x, x ∈ (if order.length = 0 then [nodeID root.ref] else order) ↔
      ∃ ref ∈ walkStarts root inventory, nodeID ref = x := queue_starts listed
  have inside : ∀ x ∈ (if order.length = 0 then [nodeID root.ref] else order),
      (assemble b root inventory).Has x := by
    intro x queued
    obtain ⟨ref, start, same⟩ := (starts x).mp queued
    refine (named_iff x).mpr ⟨ref, ?_, same⟩
    unfold walkStarts at start
    split at start
    next => exact mem_singleton.mp start ▸ mem_cons_self
    next => exact mem_cons_of_mem _ (mem_append_left _ start)
  have consistent := (assembled b root inventory).consistent
  obtain ⟨walking, seen⟩ : Walking b inventory.tool (assemble b root inventory)
      (explore b root inventory order) ∧ _ := walk_ends consistent inside
  refine ⟨walking.grown, fun live => ?_⟩
  rw [← taken_iff starts]
  exact exists_congr fun s => and_congr_left fun _ => seen s

end Rooted

section Tree
variable {b : Builder} {root : RootObject} {inventory : Inventory} {order order' : List String}
variable {res : ManagedResource} {managed : List ManagedResource}

theorem build_nodes (n : Node) : n ∈ (build b root inventory order order').nodes ↔
    n ∈ (attach (nodeID root.ref) (explore b root inventory order).asm order').nodes :=
  (sort_perm lessNode _).mem_iff

theorem build_linked (s t : String) : (build b root inventory order order').Linked s t ↔
    (attach (nodeID root.ref) (explore b root inventory order).asm order').Linked s t := by
  have same : ∀ e, e ∈ (build b root inventory order order').edges ↔
      e ∈ (attach (nodeID root.ref) (explore b root inventory order).asm order').edges :=
    fun e => (sort_perm lessEdge _).mem_iff
  simp only [ResourceTree.Linked, Assembly.Linked, same]

/-- Build's maps before the lists are made of them. -/
structure Built (b : Builder) (root : RootObject) (inventory : Inventory) (order order' : List String)
    (tree : ResourceTree) : Prop where
  grown : Grown b inventory.tool (assemble b root inventory) (Came b root inventory order)
    (explore b root inventory order).asm
  taken : ∀ live, (∃ s, Came b root inventory order s live) ↔ Owned b root inventory live
  nodes : ∀ n, n ∈ tree.nodes ↔ n ∈ (explore b root inventory order).asm.nodes
  distinct : (tree.nodes.map Node.id).Nodup
  root_is : tree.root ∈ tree.nodes ∧ tree.root.id = nodeID root.ref
  linked : ∀ s x, tree.Linked s x ↔ (explore b root inventory order).asm.Linked s x ∨
    (s = nodeID root.ref ∧ x ∈ order' ∧ x ≠ nodeID root.ref ∧
      ∀ p, ¬ (explore b root inventory order).asm.Linked p x)

theorem built (listed : ∀ x, x ∈ order ↔ x ∈ declaredIDs inventory)
    (listed' : ∀ x, x ∈ order' ↔ x ∈ declaredIDs inventory) :
    Built b root inventory order order' (build b root inventory order order') := by
  obtain ⟨grown, taken⟩ := explored (listed : ∀ x, x ∈ order ↔ x ∈ declaredIDs inventory)
  have kept : ∀ x, (assemble b root inventory).Has x → (explore b root inventory order).asm.Has x :=
    fun x ⟨n, member, own⟩ => ⟨n, (grown.nodes n).mpr (.inl member), own⟩
  have source : (explore b root inventory order).asm.Has (nodeID root.ref) :=
    kept _ ((named_iff _).mpr ⟨root.ref, mem_cons_self, rfl⟩)
  have inside : ∀ x ∈ order', (explore b root inventory order).asm.Has x := by
    intro x member
    obtain ⟨res, managed, same⟩ := mem_map.mp ((listed' x).mp member)
    refine kept x ((named_iff x).mpr ⟨res.ref, ?_, same⟩)
    exact mem_cons_of_mem _ (mem_append_left _ (mem_map_of_mem managed))
  obtain ⟨consistent, nodes, linked⟩ := attach_spec grown.consistent source order' inside
  have sorted : ((build b root inventory order order').nodes.map Node.id).Perm
      ((attach (nodeID root.ref) (explore b root inventory order).asm order').nodes.map Node.id) :=
    (sort_perm lessNode _).map Node.id
  exact {
    grown := grown
    taken := taken
    nodes := fun n => by rw [build_nodes, nodes]
    distinct := sorted.nodup_iff.mpr consistent.distinct
    root_is := by
      obtain ⟨n, member, own⟩ := source
      rw [← nodes] at member
      cases found : (attach (nodeID root.ref) (explore b root inventory order).asm order').nodes.find?
          fun n => n.id == nodeID root.ref with
      | none => exact absurd (beq_iff_eq.mpr own) (find?_eq_none.mp found n member)
      | some node =>
        have same : (build b root inventory order order').root = node := by
          simp only [build, found, Option.getD_some]
        have is_root := find?_some found
        rw [beq_iff_eq] at is_root
        rw [same, build_nodes]
        exact ⟨mem_of_find?_eq_some found, is_root⟩
    linked := fun s x => by rw [build_linked, linked] }

variable {tree : ResourceTree} {n : Node}

end Tree

section Coincidences

def deployment (name : String) : Topology.Node :=
  ⟨name, "Deployment", name, .healthy, some [("namespace", .text "shop"), ("group", .text "apps")]⟩

def owns (source target : String) : Topology.Edge := ⟨"", source, target, .manages, "", "", ""⟩

def app : RootObject := ⟨⟨"argoproj.io", "Application", "argocd", "shop", ""⟩, "Synced", "Healthy"⟩

def listing (refs : List ResourceRef) : Inventory := .argocd (refs.map fun ref => ⟨ref, "Synced", ""⟩)

end Coincidences
end GitOpsTree
