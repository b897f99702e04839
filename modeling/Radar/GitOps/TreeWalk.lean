import Radar.GitOps.TreeShape

/- The walk along the manages edges: what it adds to the declared and related resources. -/
namespace GitOpsTree
open KeyedFold Relation Worklist List
variable {live : Topology.Node} {t : Traversal}

section Steps
variable {b : Builder} {tool : Tool} {base asm : Assembly} {P : String → Topology.Node → Prop}

/-- The tree id under which a topology node stands once the walk has come to it. -/
def treeIDOf (base : Assembly) (live : Topology.Node) : String :=
  if base.treeIDByTopoID live.id = "" then nodeID (refFromTopologyNode live)
  else base.treeIDByTopoID live.id

/-- The topology node that a tree id leads to once the walk has come to it. -/
def liveIDOf (b : Builder) (base : Assembly) (x : String) : String := if base.topoIDByTreeID x = "" then
    ((b.topo.nodes.find? fun live => nodeID (refFromTopologyNode live) == x).map (·.id)).getD ""
  else base.topoIDByTreeID x

def owned (b : Builder) (topoID : String) : List Topology.Node :=
  if topoID = "" then [] else (adj b topoID).filterMap fun e => topoByID b e.target

def generatedNode (tool : Tool) (live : Topology.Node) : Node :=
  nodeFromTopology live (refFromTopologyNode live) .generated tool "" ""

/-- The maps once the walk has come from so many tree ids to so many topology nodes. -/
structure Grown (b : Builder) (tool : Tool) (base : Assembly) (P : String → Topology.Node → Prop)
    (asm : Assembly) : Prop where
  consistent : Consistent b asm
  nodes : ∀ n, n ∈ asm.nodes ↔ n ∈ base.nodes ∨
    ∃ live, (∃ s, P s live) ∧ base.treeIDByTopoID live.id = "" ∧ n = generatedNode tool live
  linked : ∀ s x, asm.Linked s x ↔ base.Linked s x ∨ ∃ live, P s live ∧ treeIDOf base live = x
  tree_ids : ∀ live ∈ b.topo.nodes, asm.treeIDByTopoID live.id = base.treeIDByTopoID live.id ∨
    asm.treeIDByTopoID live.id = treeIDOf base live
  known : ∀ s live, P s live → live ∈ b.topo.nodes

/-- What visitEdge does with a target that the topology has. -/
def comeTo (tool : Tool) (id : String) (t : Traversal) (target : Topology.Node) : Traversal :=
  let ref := refFromTopologyNode target
  let known := t.asm.treeIDByTopoID target.id
  let targetID := if known = "" then nodeID ref else known
  let asm := if known = "" then t.asm.bind targetID target else t.asm
  let asm := if asm.has targetID then asm
    else asm.setNode (nodeFromTopology target ref .generated tool "" "")
  { t with asm := asm.setEdge ⟨id, targetID, .owns⟩, queue := t.queue ++ [targetID] }

theorem visit_edges (id : String) (es : List Topology.Edge) (t : Traversal) :
    es.foldl (visitEdge b tool id) t =
      (es.filterMap fun e => topoByID b e.target).foldl (comeTo tool id) t := by
  rw [foldl_filterMap]
  congr 1
  funext t e
  unfold visitEdge
  cases topoByID b e.target <;> rfl

theorem bind_has (id x : String) (live : Topology.Node) : (asm.bind id live).has x = asm.has x := rfl

theorem bind_node (id : String) (live : Topology.Node) (node : Node) :
    (asm.bind id live).setNode node = (asm.setNode node).bind id live := rfl

theorem found_self (member : live ∈ b.topo.nodes) : findTopoNode b (refFromTopologyNode live) = some live :=
  find_topo_iff.mpr ⟨member, rfl⟩

theorem tree_id_nonempty (live : Topology.Node) : treeIDOf base live ≠ "" := by
  unfold treeIDOf
  split
  next => exact ref_key_nonempty _
  next bound => exact bound

theorem owned_known {topoID : String} (member : live ∈ owned b topoID) : live ∈ b.topo.nodes := by
  unfold owned at member
  split at member
  next => exact absurd member not_mem_nil
  next =>
    obtain ⟨e, _, found⟩ := mem_filterMap.mp member
    exact (topo_by_id_iff.mp found).1

/-- A node that the walk finds under an id of its own is the generated one. -/
theorem generated_there (consistent : Consistent b base) (grown : Grown b tool base P asm)
    (fresh : base.treeIDByTopoID live.id = "") {n : Node}
    (member : n ∈ asm.nodes) (found : findTopoNode b n.ref = some live) :
    n = generatedNode tool live := by
  rcases (grown.nodes n).mp member with old | ⟨live', ⟨s, pair⟩, _, rfl⟩
  · exact absurd fresh (consistent.tree_node n old live found)
  · have same : findTopoNode b (generatedNode tool live').ref = some live' :=
      found_self (grown.known s live' pair)
    rw [same] at found
    rw [Option.some.inj found]

/-- The walk either finds the target's node or places the generated one; its id is the target's. -/
theorem come_to_cases (grown : Grown b tool base P asm)
    {target : Topology.Node} (member : target ∈ b.topo.nodes) (id : String) (queue seen : List String) :
    ∃ mid, comeTo tool id ⟨asm, queue, seen⟩ target =
        ⟨mid.setEdge ⟨id, treeIDOf base target, .owns⟩, queue ++ [treeIDOf base target], seen⟩ ∧
      ((mid = asm ∧ asm.treeIDByTopoID target.id = treeIDOf base target) ∨
        (base.treeIDByTopoID target.id = "" ∧ ¬ asm.Has (treeIDOf base target) ∧
          mid = place b asm (generatedNode tool target))) := by
  by_cases known : asm.treeIDByTopoID target.id = ""
  · have fresh : base.treeIDByTopoID target.id = "" := by
      rcases grown.tree_ids target member with same | same
      · exact same.symm.trans known
      · exact absurd (same.symm.trans known) (tree_id_nonempty target)
    have own : treeIDOf base target = nodeID (refFromTopologyNode target) := if_pos fresh
    have absent : ¬ asm.Has (treeIDOf base target) := by
      rintro ⟨n, held, same⟩
      refine grown.consistent.tree_node n held target ?_ known
      rw [← found_self member]
      exact same_id (m := generatedNode tool target) (grown.consistent.named n held) rfl
        (same.trans own)
    refine ⟨_, ?_, .inr ⟨fresh, absent, rfl⟩⟩
    have unheld : ¬ asm.has (nodeID (refFromTopologyNode target)) = true := by
      intro there
      rw [own] at absent
      exact absent (has_iff.mp there)
    have found : findTopoNode b (generatedNode tool target).ref = some target := found_self member
    rw [place_live found, own]
    simp only [comeTo, known, if_true, bind_has, unheld, if_false, Bool.false_eq_true, bind_node]
    rfl
  · have own : asm.treeIDByTopoID target.id = treeIDOf base target := by
      rcases grown.tree_ids target member with same | same
      · rw [treeIDOf, if_neg (same ▸ known)]
        exact same
      · exact same
    obtain ⟨n, held, same, _⟩ := grown.consistent.tree_of target member known
    have there : asm.has (asm.treeIDByTopoID target.id) = true := has_iff.mpr ⟨n, held, same⟩
    refine ⟨asm, ?_, .inl ⟨rfl, own⟩⟩
    simp only [comeTo, known, if_false, there, if_true]
    rw [own]

/-- Before the edge to a target is in, the maps hold its node, and nothing else in them has changed. -/
structure Arrived (b : Builder) (tool : Tool) (base asm mid : Assembly) (target : Topology.Node) :
    Prop where
  consistent : Consistent b mid
  kept : ∀ x, asm.Has x → mid.Has x
  there : mid.Has (treeIDOf base target)
  nodes : ∀ n, n ∈ mid.nodes ↔ n ∈ asm.nodes ∨
    (base.treeIDByTopoID target.id = "" ∧ n = generatedNode tool target)
  linked : ∀ s x, mid.Linked s x ↔ asm.Linked s x
  tree_ids : ∀ live ∈ b.topo.nodes, mid.treeIDByTopoID live.id = asm.treeIDByTopoID live.id ∨
    mid.treeIDByTopoID live.id = treeIDOf base live

variable {mid : Assembly} {target : Topology.Node}

theorem found_arrived (consistent : Consistent b base) (grown : Grown b tool base P asm)
    (member : target ∈ b.topo.nodes) (own : asm.treeIDByTopoID target.id = treeIDOf base target) :
    Arrived b tool base asm asm target := by
  obtain ⟨n, held, same, found⟩ := grown.consistent.tree_of target member
    (own ▸ tree_id_nonempty target)
  exact {
    consistent := grown.consistent
    kept := fun _ has => has
    there := ⟨n, held, same.trans own⟩
    nodes := by
      intro n'
      refine ⟨.inl, ?_⟩
      rintro (old | ⟨fresh, rfl⟩)
      · exact old
      · rw [← generated_there consistent grown fresh held found]
        exact held
    linked := fun _ _ => Iff.rfl
    tree_ids := fun _ _ => .inl rfl }

theorem placed_arrived (grown : Grown b tool base P asm) (member : target ∈ b.topo.nodes)
    (fresh : base.treeIDByTopoID target.id = "") (absent : ¬ asm.Has (treeIDOf base target)) :
    Arrived b tool base asm (place b asm (generatedNode tool target)) target := by
  have own : treeIDOf base target = (generatedNode tool target).id := if_pos fresh
  have found : findTopoNode b (generatedNode tool target).ref = some target := found_self member
  exact {
    consistent := place_consistent grown.consistent rfl
    kept := fun x has => (place_has grown.consistent).mpr (.inl has)
    there := (place_has grown.consistent).mpr (.inr own)
    nodes := by
      intro n
      rw [mem_place grown.consistent]
      constructor
      · rintro (made | ⟨old, _⟩)
        · exact .inr ⟨fresh, made⟩
        · exact .inl old
      · rintro (old | ⟨_, made⟩)
        · exact .inr ⟨old, fun same => absent ⟨n, old, same.trans own.symm⟩⟩
        · exact .inl made
    linked := fun _ _ => place_linked
    tree_ids := by
      intro live held
      by_cases mine : findTopoNode b (generatedNode tool target).ref = some live
      · obtain rfl := Option.some.inj (found.symm.trans mine)
        exact .inr ((place_tree_own found).trans own.symm)
      · exact .inl (place_tree_other held mine) }

/-- The edge to the target is all that is still missing. -/
theorem arrived_grown (grown : Grown b tool base P asm) (member : target ∈ b.topo.nodes) {id : String}
    (source : asm.Has id) (arrived : Arrived b tool base asm mid target) :
    Grown b tool base (fun s live => P s live ∨ (s = id ∧ live = target))
      (mid.setEdge ⟨id, treeIDOf base target, .owns⟩) where
  consistent := edge_consistent arrived.consistent (arrived.kept id source) arrived.there
  nodes := by
    intro n
    have same : n ∈ (mid.setEdge ⟨id, treeIDOf base target, .owns⟩).nodes ↔ n ∈ mid.nodes := Iff.rfl
    rw [same, arrived.nodes, grown.nodes]
    constructor
    · rintro ((old | ⟨live, ⟨s, pair⟩, fresh, made⟩) | ⟨fresh, made⟩)
      · exact .inl old
      · exact .inr ⟨live, ⟨s, .inl pair⟩, fresh, made⟩
      · exact .inr ⟨target, ⟨id, .inr ⟨rfl, rfl⟩⟩, fresh, made⟩
    · rintro (old | ⟨live, ⟨s, pair | ⟨_, rfl⟩⟩, fresh, made⟩)
      · exact .inl (.inl old)
      · exact .inl (.inr ⟨live, ⟨s, pair⟩, fresh, made⟩)
      · exact .inr ⟨fresh, made⟩
  linked := by
    intro s x
    rw [edge_linked arrived.consistent (arrived.kept id source), arrived.linked, grown.linked]
    constructor
    · rintro ((old | ⟨live, pair, own⟩) | ⟨rfl, rfl⟩)
      · exact .inl old
      · exact .inr ⟨live, .inl pair, own⟩
      · exact .inr ⟨target, .inr ⟨rfl, rfl⟩, rfl⟩
    · rintro (old | ⟨live, pair | ⟨rfl, rfl⟩, own⟩)
      · exact .inl (.inl old)
      · exact .inl (.inr ⟨live, pair, own⟩)
      · exact .inr ⟨rfl, own⟩
  tree_ids := by
    intro live held
    rcases arrived.tree_ids live held with same | same
    · exact (grown.tree_ids live held).imp same.trans same.trans
    · exact .inr same
  known := by
    rintro s live (old | ⟨_, rfl⟩)
    · exact grown.known s live old
    · exact member

theorem come_to_grown (consistent : Consistent b base) (grown : Grown b tool base P asm)
    (member : target ∈ b.topo.nodes) {id : String} (source : asm.Has id) (queue seen : List String) :
    ∃ after, comeTo tool id ⟨asm, queue, seen⟩ target = ⟨after, queue ++ [treeIDOf base target], seen⟩ ∧
      Grown b tool base (fun s live => P s live ∨ (s = id ∧ live = target)) after ∧
      ∀ x, asm.Has x → after.Has x := by
  obtain ⟨mid, result, taken⟩ := come_to_cases grown member id queue seen
  have arrived : Arrived b tool base asm mid target := by
    rcases taken with ⟨rfl, own⟩ | ⟨fresh, absent, rfl⟩
    · exact found_arrived consistent grown member own
    · exact placed_arrived grown member fresh absent
  exact ⟨_, result, arrived_grown grown member source arrived, arrived.kept⟩

theorem come_all (consistent : Consistent b base) {id : String} (kids : List Topology.Node)
    (members : ∀ kid ∈ kids, kid ∈ b.topo.nodes) (grown : Grown b tool base P t.asm)
    (source : t.asm.Has id) :
    ∃ after, kids.foldl (comeTo tool id) t = ⟨after, t.queue ++ kids.map (treeIDOf base), t.seen⟩ ∧
      Grown b tool base (fun s live => P s live ∨ (s = id ∧ live ∈ kids)) after ∧
      ∀ x, t.asm.Has x → after.Has x := by
  induction kids generalizing t P with
  | nil =>
    refine ⟨t.asm, by simp, ?_, fun _ has => has⟩
    simpa using grown
  | cons kid rest ih =>
    obtain ⟨mid, result, grown', kept⟩ := come_to_grown consistent grown
      (members kid mem_cons_self) source t.queue t.seen
    obtain ⟨after, result', grown'', kept'⟩ := ih
      (fun k member => members k (mem_cons_of_mem kid member))
      (t := ⟨mid, t.queue ++ [treeIDOf base kid], t.seen⟩) grown' (kept id source)
    refine ⟨after, ?_, ?_, fun x has => kept' x (kept x has)⟩
    · rw [foldl_cons, result, result']
      simp
    · simpa only [mem_cons, and_or_left, or_assoc] using grown''

/-- What a tree id leads to never changes while the walk goes on. -/
theorem live_agrees (consistent : Consistent b base) (grown : Grown b tool base P asm) {x : String}
    (has : asm.Has x) : asm.topoIDByTreeID x = liveIDOf b base x := by
  obtain ⟨n, member, rfl⟩ := has
  have named := grown.consistent.named n member
  rw [grown.consistent.live_of n member, liveIDOf]
  split
  next unbound =>
    have sought : ∀ live, (b.topo.nodes.find? fun live => nodeID (refFromTopologyNode live) == n.id) =
        some live → findTopoNode b n.ref = some live := by
      intro live found
      have own := find?_some found
      rw [beq_iff_eq, named] at own
      exact find_topo_iff.mpr ⟨mem_of_find?_eq_some found, (ref_key_eq_iff.mp own).2⟩
    cases found : b.topo.nodes.find? fun live => nodeID (refFromTopologyNode live) == n.id with
    | some live => exact live_id_of (sought live found)
    | none =>
      rcases (grown.nodes n).mp member with old | ⟨live, ⟨s, pair⟩, _, rfl⟩
      · rw [← consistent.live_of n old]
        exact unbound
      · have missed := find?_eq_none.mp found live (grown.known s live pair)
        exact absurd (beq_iff_eq.mpr rfl) missed
  next bound =>
    obtain ⟨m, held, same⟩ := consistent.live_node n.id bound
    rw [← same, consistent.live_of m held, liveID, liveID, same_id (consistent.named m held) named same]

def next (b : Builder) (base : Assembly) (x : String) : List String :=
  (owned b (liveIDOf b base x)).map (treeIDOf base)

/-- The walk has come from every id taken up to all that it owns. -/
structure Walking (b : Builder) (tool : Tool) (base : Assembly) (t : Traversal) : Prop where
  grown : Grown b tool base (fun s live => s ∈ t.seen ∧ live ∈ owned b (liveIDOf b base s)) t.asm
  inside : ∀ x, x ∈ t.queue ∨ x ∈ t.seen → t.asm.Has x

theorem visit_walking (consistent : Consistent b base)
    (walking : Walking b tool base t) : Walking b tool base (visit b tool t) ∧
      (⟨(visit b tool t).queue, (visit b tool t).seen⟩ : Work String) =
        Work.round (next b base) ⟨t.queue, t.seen⟩ := by
  unfold visit Work.round
  split
  next empty => exact ⟨walking, by simp [empty]⟩
  next id rest queued =>
    simp only [queued]
    split
    next again =>
      exact ⟨⟨walking.grown, fun x => fun
        | .inl member => walking.inside x (.inl (queued ▸ mem_cons_of_mem id member))
        | .inr seen => walking.inside x (.inr seen)⟩, rfl⟩
    next =>
      have source : t.asm.Has id := walking.inside id (.inl (queued ▸ mem_cons_self))
      obtain ⟨after, result, grown, kept⟩ := come_all consistent (owned b (liveIDOf b base id))
        (fun kid member => owned_known member) (t := ⟨t.asm, rest, id :: t.seen⟩) walking.grown source
      have visited : (if t.asm.topoIDByTreeID id = "" then (⟨t.asm, rest, id :: t.seen⟩ : Traversal)
          else (adj b (t.asm.topoIDByTreeID id)).foldl (visitEdge b tool id)
            ⟨t.asm, rest, id :: t.seen⟩) =
          ⟨after, rest ++ next b base id, id :: t.seen⟩ := by
        rw [live_agrees consistent walking.grown source, visit_edges]
        refine Eq.trans ?_ result
        unfold owned
        split <;> rfl
      rw [visited]
      refine ⟨⟨?_, fun x either => ?_⟩, rfl⟩
      · convert grown using 3 with s live
        rw [mem_cons]
        constructor
        · rintro ⟨rfl | old, member⟩
          · exact .inr ⟨rfl, member⟩
          · exact .inl ⟨old, member⟩
        · rintro (⟨old, member⟩ | ⟨rfl, member⟩)
          · exact ⟨.inr old, member⟩
          · exact ⟨.inl rfl, member⟩
      · rcases either with queued' | seen
        · rcases mem_append.mp queued' with old | new
          · exact kept x (walking.inside x (.inl (queued ▸ mem_cons_of_mem id old)))
          · obtain ⟨kid, member, rfl⟩ := mem_map.mp new
            have reached := (grown.linked id (treeIDOf base kid)).mpr
              (.inr ⟨kid, .inr ⟨rfl, member⟩, rfl⟩)
            exact (grown.consistent.inside _ _ reached).2
        · rcases mem_cons.mp seen with rfl | old
          · exact kept _ source
          · exact kept x (walking.inside x (.inr old))

end Steps

section Walked
variable {b : Builder} {tool : Tool} {base : Assembly} {queue : List String}

theorem traverse_walking (consistent : Consistent b base) (n : Nat)
    (walking : Walking b tool base t) : Walking b tool base (traverse b tool n t) ∧
      (⟨(traverse b tool n t).queue, (traverse b tool n t).seen⟩ : Work String) =
        Work.rounds (next b base) n ⟨t.queue, t.seen⟩ := by
  induction n generalizing t with
  | zero => exact ⟨walking, rfl⟩
  | succ n ih =>
    obtain ⟨later, same⟩ := visit_walking consistent walking
    rw [traverse, Work.rounds, ← same]
    exact ih later

/-- The ids that the walk can come to: those of the nodes and of the topology's. -/
def treeIDs (b : Builder) (base : Assembly) : List String :=
  base.nodes.map Node.id ++ b.topo.nodes.map fun live => nodeID (refFromTopologyNode live)

theorem tree_id_known (consistent : Consistent b base)
    (member : live ∈ b.topo.nodes) : treeIDOf base live ∈ treeIDs b base := by
  unfold treeIDOf
  split
  next => exact mem_append_right _ (mem_map.mpr ⟨live, member, rfl⟩)
  next bound =>
    obtain ⟨n, held, same, _⟩ := consistent.tree_of live member bound
    exact mem_append_left _ (mem_map.mpr ⟨n, held, same⟩)

theorem owned_length (topoID : String) : (owned b topoID).length ≤ b.topo.edges.length := by
  unfold owned
  split
  next => exact Nat.zero_le _
  next => exact Nat.le_trans (length_filterMap_le _ _) (length_filter_le _ _)

/-- The walk ends within its rounds, having taken up all ids that the queue leads to. -/
theorem walk_ends (consistent : Consistent b base) (inside : ∀ x ∈ queue, base.Has x) :
    Walking b tool base (traverse b tool (rounds b base queue) ⟨base, queue, []⟩) ∧
      ∀ x, x ∈ (traverse b tool (rounds b base queue) ⟨base, queue, []⟩).seen ↔
        Reached (next b base) queue x := by
  have begun : Walking b tool base ⟨base, queue, []⟩ :=
    { grown := {
        consistent := consistent
        nodes := fun n => by simp
        linked := fun s x => by simp
        tree_ids := fun _ _ => .inl rfl
        known := fun s live pair => absurd pair.1 not_mem_nil }
      inside := fun x either => either.elim (inside x) fun none_ => absurd none_ not_mem_nil }
  obtain ⟨walking, same⟩ := traverse_walking consistent (rounds b base queue) begun
  have bound : ∀ x, (next b base x).length ≤ b.topo.edges.length := by
    intro x
    rw [next, length_map]
    exact owned_length _
  have closed : ∀ x ∈ treeIDs b base, ∀ y ∈ next b base x, y ∈ treeIDs b base := by
    intro x _ y successor
    obtain ⟨live, member, rfl⟩ := mem_map.mp successor
    exact tree_id_known consistent (owned_known member)
  have known : ∀ x, (⟨queue, []⟩ : Work String).Known x → x ∈ treeIDs b base := by
    rintro x (queued | none_)
    · obtain ⟨n, member, rfl⟩ := inside x queued
      exact mem_append_left _ (mem_map_of_mem member)
    · exact absurd none_ not_mem_nil
  have enough : potential b.topo.edges.length (treeIDs b base) ⟨queue, []⟩ ≤ rounds b base queue := by
    simp [potential, treeIDs, rounds]
  have empty : ((⟨queue, []⟩ : Work String).rounds (next b base) (rounds b base queue)).queue = [] :=
    rounds_empty bound closed known enough
  refine ⟨walking, fun x => ?_⟩
  rw [← seen_iff_reached empty, ← congrArg Work.seen same]

end Walked
end GitOpsTree
