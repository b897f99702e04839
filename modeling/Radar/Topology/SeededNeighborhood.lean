import Radar.Base.Firsts
import Radar.Base.LeafSearch
import Radar.Base.Selection
import Radar.Topology.NodeRef

/- packages/k8s-ui/src/utils/topology-neighborhood.ts: the part of a graph around some workloads. -/
namespace SeededNeighborhood
open Topology NodeRef List
variable {x : String} {o : String × Bool}

section Model

structure NeighborhoodSeed where
  kind : String
  namespace_ : String
  name : String
  deriving DecidableEq

/-- What the interface has of a graph beside its other fields, which it hands on. -/
structure UiTopology where
  nodes : List Node
  edges : List Edge
  warnings : Option (List String)

def matchSeedNode (node : Node) (seeds : List NeighborhoodSeed) : Bool := seeds.any fun s =>
    s.kind = node.kind ∧ s.name = node.name ∧ s.namespace_ = nodeNamespaceFromData node

variable (t : UiTopology) (seeds : List NeighborhoodSeed)

/-- nodeById knows the id. -/
def hasNode (id : String) : Bool := t.nodes.any fun n => n.id = id

/-- A set keeps the order in which its elements first came. -/
def seedIds : List String :=
  Firsts.firsts id [] ((t.nodes.filter fun n => matchSeedNode n seeds).map Node.id)

/-- Each edge is listed at both of its ends. -/
def adjacency (id : String) : List Edge :=
  t.edges.flatMap fun e => ([e.source, e.target].filter fun at_ => at_ = id).map fun _ => e

/-- The node that an edge leads to, and whether it is kept as a leaf. -/
def offer (id : String) (e : Edge) : Option (String × Bool) :=
  let nextId := if e.source = id then e.target else e.source
  if hasNode t nextId then
    some (nextId, match e.type with
      | .manages => nextId = e.source
      | .exposes => true
      | .routesTo => true
      | _ => true)
  else none

def offers (id : String) : List (String × Bool) := (adjacency t id).filterMap (offer t id)

/-- The walk, each node taken from the queue once. -/
def walk : LeafSearch.Search String :=
  LeafSearch.rounds (offers t) t.nodes.length (LeafSearch.begin_ (seedIds t seeds))

def neighborhoodFor : UiTopology := if seedIds t seeds = [] then
    ⟨[], [], some (t.warnings.getD [] ++ ["No topology nodes matched this selection."])⟩
  else
    { t with
      nodes := t.nodes.filter fun n => n.id ∈ (walk t seeds).keep
      edges := t.edges.filter fun e => e.source ∈ (walk t seeds).keep ∧ e.target ∈ (walk t seeds).keep }

end Model

section Claims
variable (t : UiTopology) (seeds : List NeighborhoodSeed)

def Manages (a b : String) : Prop := ∃ e ∈ t.edges, e.type = .manages ∧ e.source = a ∧ e.target = b

/-- At most so many steps from owner to child below a seed. -/
inductive Below : Nat → String → Prop where
  | seed {node : Node} (n : Nat) : node ∈ t.nodes → matchSeedNode node seeds = true → Below n node.id
  | child {n : Nat} {a b : String} : Below n a → Manages t a b → hasNode t b = true → Below (n + 1) b

def InCore (id : String) : Prop := ∃ n, Below t seeds n id

def Joined (a b : String) : Prop :=
  ∃ e ∈ t.edges, (e.source = a ∧ e.target = b) ∨ (e.source = b ∧ e.target = a)

/-- Joined by an edge that does not lead from owner to child. -/
def Beside (a b : String) : Prop :=
  ∃ e ∈ t.edges, ((e.source = a ∧ e.target = b) ∨ (e.source = b ∧ e.target = a)) ∧
    ¬ (e.type = .manages ∧ e.target = b ∧ e.source ≠ b)

def Reordered (t' : UiTopology) (seeds' : List NeighborhoodSeed) : Prop :=
  t'.nodes.Perm t.nodes ∧ t'.edges.Perm t.edges ∧ seeds'.Perm seeds

/-- The core and all that is joined to it, whatever the order. -/
def Exact : Prop :=
  ∀ t' seeds', Reordered t seeds t' seeds' → ∀ node, node ∈ (neighborhoodFor t' seeds').nodes ↔
    node ∈ t.nodes ∧ (InCore t seeds node.id ∨ ∃ a, InCore t seeds a ∧ Joined t a node.id)

/-- No other edge leads from the core to a part of it that is farther below the seeds. -/
def NoShortcut : Prop := ∀ n a b, Below t seeds n a → Beside t a b → InCore t seeds b → Below t seeds n b

end Claims

section Offers
variable {t : UiTopology} {seeds : List NeighborhoodSeed} {a b : String}

theorem mem_offers {a : String} :
    o ∈ offers t a ↔ ∃ e ∈ t.edges, (e.source = a ∨ e.target = a) ∧ offer t a e = some o := by
  simp only [offers, adjacency, mem_filterMap, mem_flatMap, mem_map, mem_filter,
    decide_eq_true_eq, mem_cons, not_mem_nil, or_false]
  constructor
  · rintro ⟨e, ⟨e', member, at_, ⟨end_, own⟩, rfl⟩, found⟩
    refine ⟨e', member, ?_, found⟩
    rcases end_ with rfl | rfl
    · exact .inl own
    · exact .inr own
  · rintro ⟨e, member, end_, found⟩
    refine ⟨e, ⟨e, member, a, ⟨?_, rfl⟩, rfl⟩, found⟩
    exact end_.imp Eq.symm Eq.symm

theorem offer_eq {side : Bool} {e : Edge} : offer t a e = some (b, side) ↔
    hasNode t b = true ∧ (if e.source = a then e.target else e.source) = b ∧
      side = decide (¬ (e.type = .manages ∧ b ≠ e.source)) := by
  unfold offer
  generalize (if e.source = a then e.target else e.source) = next
  simp only
  constructor
  · intro found
    split at found
    · rename_i here
      obtain ⟨rfl, mark⟩ := Prod.mk.inj (Option.some.inj found)
      refine ⟨here, rfl, ?_⟩
      rw [← mark]
      cases e.type <;> simp
    · cases found
  · rintro ⟨here, rfl, rfl⟩
    rw [if_pos here]
    cases e.type <;> simp

/-- The steps of the walk that are no side steps lead from owner to child. -/
theorem down_iff : (b, false) ∈ offers t a ↔ hasNode t b = true ∧ b ≠ a ∧ Manages t a b := by
  rw [mem_offers]
  constructor
  · rintro ⟨e, member, end_, found⟩
    obtain ⟨here, next, mark⟩ := offer_eq.mp found
    have down : e.type = .manages ∧ b ≠ e.source := not_not.mp (of_decide_eq_false mark.symm)
    by_cases source : e.source = a
    · rw [if_pos source] at next
      exact ⟨here, source ▸ down.2, e, member, down.1, source, next⟩
    · rw [if_neg source] at next
      exact absurd next.symm down.2
  · rintro ⟨here, differ, e, member, type, source, target⟩
    refine ⟨e, member, .inl source, offer_eq.mpr ⟨here, ?_, ?_⟩⟩
    · rw [if_pos source, target]
    · simp [type, source, differ]

theorem side_iff : (b, true) ∈ offers t a ↔ hasNode t b = true ∧ Beside t a b := by
  rw [mem_offers]
  constructor
  · rintro ⟨e, member, end_, found⟩
    obtain ⟨here, next, mark⟩ := offer_eq.mp found
    have side : ¬ (e.type = .manages ∧ b ≠ e.source) := of_decide_eq_true mark.symm
    refine ⟨here, e, member, ?_, fun down => side ⟨down.1, Ne.symm down.2.2⟩⟩
    by_cases source : e.source = a
    · rw [if_pos source] at next
      exact .inl ⟨source, next⟩
    · rw [if_neg source] at next
      exact .inr ⟨next, end_.resolve_left source⟩
  · rintro ⟨here, e, member, ends, side⟩
    have mark : ¬ (e.type = .manages ∧ b ≠ e.source) := by
      rintro ⟨type, other⟩
      rcases ends with ⟨_, target⟩ | ⟨source, _⟩
      · exact side ⟨type, target, Ne.symm other⟩
      · exact other source.symm
    refine ⟨e, member, ?_, offer_eq.mpr ⟨here, ?_, ?_⟩⟩
    · exact ends.imp And.left And.right
    · rcases ends with ⟨source, target⟩ | ⟨source, target⟩
      · rw [if_pos source, target]
      · by_cases loop : e.source = a
        · rw [if_pos loop, target, ← loop, source]
        · rw [if_neg loop, source]
    · exact (decide_eq_true mark).symm

theorem joined_iff : (∃ side, (b, side) ∈ offers t a) ↔ hasNode t b = true ∧ Joined t a b := by
  constructor
  · rintro ⟨side, offered⟩
    cases side with
    | false =>
      obtain ⟨here, _, e, member, _, source, target⟩ := down_iff.mp offered
      exact ⟨here, e, member, .inl ⟨source, target⟩⟩
    | true =>
      obtain ⟨here, e, member, ends, _⟩ := side_iff.mp offered
      exact ⟨here, e, member, ends⟩
  · rintro ⟨here, e, member, ends⟩
    by_cases down : e.type = .manages ∧ e.target = b ∧ e.source ≠ b
    · refine ⟨false, down_iff.mpr ⟨here, ?_, e, member, down.1, ?_, down.2.1⟩⟩
      · rcases ends with ⟨source, _⟩ | ⟨source, _⟩
        · exact fun same => down.2.2 (source.trans same.symm)
        · exact absurd source down.2.2
      · rcases ends with ⟨source, _⟩ | ⟨source, _⟩
        · exact source
        · exact absurd source down.2.2
    · exact ⟨true, side_iff.mpr ⟨here, e, member, ends, down⟩⟩

theorem mem_seedIds {id : String} :
    id ∈ seedIds t seeds ↔ ∃ node ∈ t.nodes, matchSeedNode node seeds = true ∧ node.id = id := by
  constructor
  · intro member
    obtain ⟨node, inside, own⟩ := mem_map.mp (Firsts.firsts_mem member)
    exact ⟨node, mem_of_mem_filter inside, (mem_filter.mp inside).2, own⟩
  · rintro ⟨node, inside, matched, rfl⟩
    have listed : node.id ∈ (t.nodes.filter fun n => matchSeedNode n seeds).map Node.id :=
      mem_map_of_mem (mem_filter.mpr ⟨inside, matched⟩)
    obtain ⟨id', member, same⟩ := @Firsts.firsts_covers String String _ id [] _ _ listed
    have own : id' = node.id := same
    exact own ▸ member

theorem seedIds_nodup : (seedIds t seeds).Nodup := by
  have distinct := @Firsts.firsts_nodup String String _ id [] nodup_nil
    ((t.nodes.filter fun n => matchSeedNode n seeds).map Node.id)
  rwa [map_id] at distinct

theorem below_node {n : Nat} (below : Below t seeds n x) : hasNode t x = true := by
  cases below with
  | seed _ member matched => exact any_eq_true.mpr ⟨_, member, by simp⟩
  | child _ _ here => exact here

theorem below_iff {n : Nat} : Below t seeds n x ↔ LeafSearch.Within (offers t) (seedIds t seeds) n x := by
  constructor
  · intro below
    induction below with
    | seed n member matched => exact .start n (mem_seedIds.mpr ⟨_, member, matched, rfl⟩)
    | @child n a b below manages here ih =>
      by_cases loop : b = a
      · rw [loop]
        exact LeafSearch.within_next ih
      · exact .further ih (down_iff.mpr ⟨here, loop, manages⟩)
  · intro near
    induction near with
    | start n member =>
      obtain ⟨node, inside, matched, rfl⟩ := mem_seedIds.mp member
      exact .seed n inside matched
    | further near step ih =>
      obtain ⟨here, _, manages⟩ := down_iff.mp step
      exact .child ih manages here

theorem core_iff : InCore t seeds x ↔ LeafSearch.Core (offers t) (seedIds t seeds) x :=
  exists_congr fun _ => below_iff

theorem shortcut_iff : NoShortcut t seeds ↔ LeafSearch.Direct (offers t) (seedIds t seeds) := by
  constructor
  · intro none n a b near side core
    exact below_iff.mp (none n a b (below_iff.mpr near) (side_iff.mp side).2 (core_iff.mpr core))
  · intro direct n a b below beside core
    obtain ⟨m, below'⟩ := core
    exact below_iff.mpr (direct n a b (below_iff.mp below) (side_iff.mpr ⟨below_node below', beside⟩)
      (core_iff.mp ⟨m, below'⟩))

/-- The walk ends: each node comes into the queue once. -/
theorem walk_ends : (walk t seeds).queue = [] := by
  refine @LeafSearch.rounds_empty String _ (offers t) (seedIds t seeds) (t.nodes.map Node.id) seedIds_nodup
    ?_ ?_ _ ?_
  · intro x member
    obtain ⟨node, inside, _, rfl⟩ := mem_seedIds.mp member
    exact mem_map_of_mem inside
  · rintro x ⟨b, side⟩ offered
    obtain ⟨here, _⟩ := joined_iff.mp ⟨side, offered⟩
    obtain ⟨node, inside, own⟩ := any_eq_true.mp here
    exact mem_map.mpr ⟨node, inside, by simpa using own⟩
  · rw [length_map]

theorem walk_sound : LeafSearch.Sound (offers t) (seedIds t seeds) (walk t seeds) :=
  LeafSearch.rounds_sound _ (LeafSearch.sound_begin (offers t) seedIds_nodup)

/-- With no core node left as a leaf the walk keeps the core and what is joined to it. -/
theorem neighborhood_nodes (clear : ∀ x, InCore t seeds x → x ∉ (walk t seeds).leaf) (node : Node) :
    node ∈ (neighborhoodFor t seeds).nodes ↔
      node ∈ t.nodes ∧ (InCore t seeds node.id ∨ ∃ a, InCore t seeds a ∧ Joined t a node.id) := by
  unfold neighborhoodFor
  split
  · rename_i none
    have empty : ∀ x, ¬ InCore t seeds x := by
      rintro x ⟨n, below⟩
      induction below with
      | seed n member matched =>
        have listed := mem_seedIds.mpr ⟨_, member, matched, rfl⟩
        rw [none] at listed
        exact not_mem_nil listed
      | child _ _ _ ih => exact ih
    simp [empty]
  · simp only [mem_filter, decide_eq_true_eq]
    apply and_congr_right
    intro member
    have here : hasNode t node.id = true := any_eq_true.mpr ⟨node, member, by simp⟩
    rw [LeafSearch.found_iff walk_sound (fun x dead core => clear x (core_iff.mpr core) dead) walk_ends]
    simp only [← core_iff, joined_iff, here, true_and]

end Offers

section Orders
variable {t t' : UiTopology} {seeds seeds' : List NeighborhoodSeed}

theorem reordered_symm (same : Reordered t seeds t' seeds') : Reordered t' seeds' t seeds :=
  ⟨same.1.symm, same.2.1.symm, same.2.2.symm⟩

theorem match_same (same : seeds'.Perm seeds) (node : Node) :
    matchSeedNode node seeds' = matchSeedNode node seeds := same.any_eq

theorem hasNode_same (same : Reordered t seeds t' seeds') (id : String) : hasNode t' id = hasNode t id :=
  same.1.any_eq

theorem below_moved (same : Reordered t seeds t' seeds') {n : Nat} (below : Below t seeds n x) :
    Below t' seeds' n x := by
  induction below with
  | seed n member matched =>
    exact .seed n (same.1.mem_iff.mpr member) ((match_same same.2.2 _).trans matched)
  | child _ manages here ih =>
    obtain ⟨e, member, type, source, target⟩ := manages
    exact .child ih ⟨e, same.2.1.mem_iff.mpr member, type, source, target⟩ ((hasNode_same same _).trans here)

theorem below_same (same : Reordered t seeds t' seeds') (n : Nat) (x : String) :
    Below t' seeds' n x ↔ Below t seeds n x :=
  ⟨below_moved (reordered_symm same), below_moved same⟩

theorem core_same (same : Reordered t seeds t' seeds') (x : String) :
    InCore t' seeds' x ↔ InCore t seeds x := exists_congr fun n => below_same same n x

theorem shortcut_same (same : Reordered t seeds t' seeds') (none : NoShortcut t seeds) :
    NoShortcut t' seeds' := by
  intro n a b below beside core
  obtain ⟨e, member, ends, side⟩ := beside
  rw [below_same same] at below ⊢
  exact none n a b below ⟨e, same.2.1.mem_iff.mp member, ends, side⟩ ((core_same same b).mp core)

/-- Without a shortcut no core node becomes a leaf. -/
theorem walk_clear (none : NoShortcut t seeds) (core : InCore t seeds x) :
    x ∉ (walk t seeds).leaf := fun dead =>
  LeafSearch.rounds_clear (shortcut_iff.mp none) _ (LeafSearch.sound_begin (offers t) seedIds_nodup)
    LeafSearch.levels_begin (fun _ none => absurd none not_mem_nil) x dead (core_iff.mp core)

theorem exact_of_none (none : NoShortcut t seeds) : Exact t seeds := by
  intro t' seeds' same node
  have joined : ∀ a b, Joined t' a b ↔ Joined t a b := by
    intro a b
    simp only [Joined, same.2.1.mem_iff]
  rw [neighborhood_nodes (fun x core => walk_clear (shortcut_same same none) core), same.1.mem_iff]
  simp only [core_same same, joined]

end Orders

section Shortcut
variable {t : UiTopology} {seeds : List NeighborhoodSeed}

/-- What an edge adds to the neighbours of a node. -/
def offersFrom (t : UiTopology) (a : String) (e : Edge) : List (String × Bool) :=
  (([e.source, e.target].filter fun at_ => at_ = a).map fun _ => e).filterMap (offer t a)

theorem offers_each (t : UiTopology) (a : String) : offers t a = t.edges.flatMap (offersFrom t a) := by
  rw [offers, adjacency, filterMap_flatMap]
  rfl

theorem offersFrom_ends {a : String} {e : Edge} (member : o ∈ offersFrom t a e) :
    o.1 = e.source ∨ o.1 = e.target := by
  obtain ⟨e', inside, found⟩ := mem_filterMap.mp member
  obtain ⟨_, _, own⟩ := mem_map.mp inside
  rw [← own] at found
  obtain ⟨_, next, _⟩ := (@offer_eq t a o.1 o.2 e).mp found
  split at next
  · exact .inr next.symm
  · exact .inl next.symm

/-- An edge between two nodes is at each of them once. -/
theorem offersFrom_single {a : String} {e : Edge} (differ : e.source ≠ e.target)
    (end_ : e.source = a ∨ e.target = a) (found : offer t a e = some o) : offersFrom t a e = [o] := by
  have once : ([e.source, e.target].filter fun at_ => at_ = a) = [a] := by
    rcases end_ with rfl | rfl
    · simp [Ne.symm differ]
    · simp [differ]
  rw [offersFrom, once, map_singleton, filterMap_cons, found]
  rfl

theorem range_split {k n : Nat} (less : k < n) : ∃ tail, range n = range k ++ k :: tail := by
  obtain ⟨m, rfl⟩ := Nat.exists_eq_add_of_lt less
  refine ⟨(range m).map fun i => k + (i + 1), ?_⟩
  rw [Nat.add_assoc, range_add, range_succ_eq_map, map_cons, map_map]
  rfl

/-- Some edges first, in their order. -/
theorem edges_first {first edges : List Edge} (distinct : first.Nodup) (inside : ∀ e ∈ first, e ∈ edges) :
    ∃ rest, (first ++ rest).Perm edges := by
  refine ⟨edges.diff first, subperm_append_diff_self_of_count_le fun e member => ?_⟩
  rw [count_eq_one_of_mem distinct member]
  exact one_le_count_iff.mpr (inside e member)

/-- A shortest way from a seed to a node of the core, and the shortcut that leaves it there. -/
structure Lead (t : UiTopology) (seeds : List NeighborhoodSeed) (u : Nat → String) (edge : Nat → Edge) (n : Nat)
    (b : String) (beyond : Edge) : Prop where
  first : u 0 ∈ seedIds t seeds
  inside : ∀ k < n, edge k ∈ t.edges ∧ (edge k).type = .manages
  source : ∀ k < n, (edge k).source = u k
  target : ∀ k < n, (edge k).target = u (k + 1)
  nodes : ∀ k < n, hasNode t (u (k + 1)) = true
  depths : ∀ k ≤ n, LeafSearch.depth (offers t) (seedIds t seeds) (u k) = k
  member : beyond ∈ t.edges
  ends : (beyond.source = u n ∧ beyond.target = b) ∨ (beyond.source = b ∧ beyond.target = u n)
  sideways : ¬ (beyond.type = .manages ∧ beyond.target = b ∧ beyond.source ≠ b)
  node : hasNode t b = true
  core : InCore t seeds b
  deeper : n < LeafSearch.depth (offers t) (seedIds t seeds) b

theorem lead_exists (shortcut : ¬ NoShortcut t seeds) :
    ∃ u edge n b beyond, Lead t seeds u edge n b beyond := by
  obtain ⟨a, b, core, core', side, deeper⟩ := LeafSearch.not_direct (mt shortcut_iff.mpr shortcut)
  obtain ⟨u, last, first, steps, depths⟩ := LeafSearch.way_exists core rfl
  obtain ⟨here, beyond, member, ends, sideways⟩ := side_iff.mp side
  have managed : ∀ k, k < LeafSearch.depth (offers t) (seedIds t seeds) a →
      ∃ e ∈ t.edges, e.type = .manages ∧ e.source = u k ∧ e.target = u (k + 1) :=
    fun k less => (down_iff.mp (steps k less)).2.2
  have some_ : Nonempty Edge := ⟨beyond⟩
  choose! edge inside type source target using managed
  rw [← last] at ends
  exact ⟨u, edge, _, b, beyond, first, fun k less => ⟨inside k less, type k less⟩, source, target,
    fun k less => (down_iff.mp (steps k less)).1, depths, member, ends, sideways, here, core_iff.mpr core', deeper⟩

section Lead
variable {t' : UiTopology} {u : Nat → String} {edge : Nat → Edge} {n : Nat} {b : String} {beyond : Edge}
  (lead : Lead t seeds u edge n b beyond)
include lead

theorem lead_apart {i j : Nat} (le : i ≤ n) (le' : j ≤ n) (same : u i = u j) : i = j := by
  rw [← lead.depths i le, ← lead.depths j le', same]

theorem lead_off {k : Nat} (le : k ≤ n) : u k ≠ b := by
  intro same
  have deep := lead.depths k le
  have deeper := lead.deeper
  rw [same] at deep
  omega

theorem lead_distinct : ((range n).map edge ++ [beyond]).Nodup := by
  refine nodup_append.mpr ⟨List.Nodup.map_on ?_ nodup_range, nodup_singleton _, ?_⟩
  · intro i small j small' same
    have less := mem_range.mp small
    have less' := mem_range.mp small'
    apply lead_apart lead less.le less'.le
    rw [← lead.source i less, ← lead.source j less', same]
  · intro e listed e' own same
    obtain ⟨k, small, rfl⟩ := mem_map.mp listed
    have less := mem_range.mp small
    have ends := lead.ends
    rw [← mem_singleton.mp own, ← same, lead.source k less, lead.target k less] at ends
    rcases ends with ⟨_, end_⟩ | ⟨end_, _⟩
    · exact lead_off lead less end_
    · exact lead_off lead less.le end_

/-- Before the next node of the way come only nodes that are on it. -/
theorem lead_known {k : Nat} (le : k ≤ n) :
    ∀ o ∈ ((range k).map edge).flatMap (offersFrom t' (u k)), ∃ j ≤ k, o.1 = u j := by
  intro o offered
  obtain ⟨e, listed, found⟩ := mem_flatMap.mp offered
  obtain ⟨j, small, rfl⟩ := mem_map.mp listed
  have less := mem_range.mp small
  rcases offersFrom_ends found with own | own
  · exact ⟨j, by omega, own.trans (lead.source j (by omega))⟩
  · exact ⟨j + 1, by omega, own.trans (lead.target j (by omega))⟩

theorem lead_step (same : Reordered t seeds t' seeds) {k : Nat} (less : k < n) :
    offersFrom t' (u k) (edge k) = [(u (k + 1), false)] := by
  have differ : u (k + 1) ≠ u k := by
    intro equal
    have own := lead_apart lead less less.le equal
    omega
  apply offersFrom_single
  · rw [lead.source k less, lead.target k less]
    exact Ne.symm differ
  · exact .inl (lead.source k less)
  · apply offer_eq.mpr
    rw [hasNode_same same, if_pos (lead.source k less)]
    refine ⟨lead.nodes k less, lead.target k less, ?_⟩
    simp [(lead.inside k less).2, lead.source k less, differ]

theorem lead_ahead (same : Reordered t seeds t' seeds) : offersFrom t' (u n) beyond = [(b, true)] := by
  have off := lead_off lead (le_refl n)
  have down : ¬ (beyond.type = .manages ∧ b ≠ beyond.source) := by
    rintro ⟨type, other⟩
    rcases lead.ends with ⟨_, target⟩ | ⟨source, _⟩
    · exact lead.sideways ⟨type, target, Ne.symm other⟩
    · exact other source.symm
  have offered : offer t' (u n) beyond = some (b, true) := by
    apply offer_eq.mpr
    rw [hasNode_same same]
    refine ⟨lead.node, ?_, (decide_eq_true down).symm⟩
    rcases lead.ends with ⟨source, target⟩ | ⟨source, target⟩
    · rw [if_pos source, target]
    · rw [if_neg (by rw [source]; exact Ne.symm off), source]
  rcases lead.ends with ⟨source, target⟩ | ⟨source, target⟩
  · exact offersFrom_single (by rw [source, target]; exact off) (.inl source) offered
  · exact offersFrom_single (by rw [source, target]; exact Ne.symm off) (.inr target) offered

end Lead

/-- With a shortcut there is an order in which a core node becomes a leaf. -/
theorem shortcut_leaf (shortcut : ¬ NoShortcut t seeds) :
    ∃ t' seeds', Reordered t seeds t' seeds' ∧ ∃ x, InCore t seeds x ∧ x ∈ (walk t' seeds').leaf := by
  obtain ⟨u, edge, n, b, beyond, lead⟩ := lead_exists shortcut
  -- the way comes first, then the shortcut
  obtain ⟨rest, edges⟩ := edges_first (lead_distinct lead) fun e listed => by
    rcases mem_append.mp listed with way | own
    · obtain ⟨k, small, rfl⟩ := mem_map.mp way
      exact (lead.inside k (mem_range.mp small)).1
    · rw [mem_singleton.mp own]
      exact lead.member
  obtain ⟨node, present, matched, named⟩ := mem_seedIds.mp lead.first
  obtain ⟨others, nodes⟩ := Selection.exists_front present
  let t' : UiTopology := ⟨node :: others, (range n).map edge ++ [beyond] ++ rest, t.warnings⟩
  have same : Reordered t seeds t' seeds := ⟨nodes, edges, List.Perm.refl _⟩
  have level : ∀ x, LeafSearch.depth (offers t) (seedIds t seeds) x =
      LeafSearch.depth (offers t') (seedIds t' seeds) x := by
    refine (LeafSearch.core_congr (fun x y => ?_) fun x => ?_).2
    · rw [down_iff, down_iff, hasNode_same same]
      simp only [Manages, same.2.1.mem_iff]
    · rw [mem_seedIds, mem_seedIds]
      simp only [same.1.mem_iff]
  have chain : LeafSearch.Chain (offers t') (seedIds t' seeds) u n := by
    refine ⟨?_, fun k less => ?_, fun k le => (level (u k)).symm.trans (lead.depths k le)⟩
    · obtain ⟨more, whole, _⟩ := @Firsts.firsts_extends String String _ id [node.id]
        ((others.filter fun n => matchSeedNode n seeds).map Node.id)
      refine ⟨more, ?_⟩
      have head : (t'.nodes.filter fun n => matchSeedNode n seeds) =
          node :: others.filter fun n => matchSeedNode n seeds := filter_cons_of_pos matched
      rw [seedIds, head, ← named]
      exact whole
    · obtain ⟨tail, split⟩ := range_split less
      refine ⟨((range k).map edge).flatMap (offersFrom t' (u k)),
        ((tail.map edge) ++ [beyond] ++ rest).flatMap (offersFrom t' (u k)), ?_, lead_known lead less.le⟩
      rw [offers_each]
      change ((range n).map edge ++ [beyond] ++ rest).flatMap _ = _
      rw [split]
      simp [lead_step lead same less]
  have ahead : offers t' (u n) = ((range n).map edge).flatMap (offersFrom t' (u n)) ++
      (b, true) :: rest.flatMap (offersFrom t' (u n)) := by
    rw [offers_each]
    change ((range n).map edge ++ [beyond] ++ rest).flatMap _ = _
    simp [lead_ahead lead same]
  have core := core_iff.mp ((core_same same b).mpr lead.core)
  obtain ⟨m, leafy⟩ := LeafSearch.ahead_leaf seedIds_nodup chain core (by rw [← level]; exact lead.deeper)
    ahead (lead_known lead (le_refl n))
  unfold LeafSearch.Clear at leafy
  push Not at leafy
  obtain ⟨x, dead, found⟩ := leafy
  exact ⟨t', seeds, same, x, (core_same same x).mp (core_iff.mpr found),
    LeafSearch.leaf_at_end seedIds_nodup walk_ends dead⟩

/-- Without a shortcut the neighbourhood is exact in every order; without one is where no order makes
    a leaf of a core node. -/
theorem neighborhood_settled (t : UiTopology) (seeds : List NeighborhoodSeed) :
    (NoShortcut t seeds → Exact t seeds) ∧ (NoShortcut t seeds ↔ ∀ t' seeds', Reordered t seeds t' seeds' →
        ∀ x, InCore t seeds x → x ∉ (walk t' seeds').leaf) := by
  refine ⟨exact_of_none, ?_, fun clear => ?_⟩
  · intro none t' seeds' same x core
    exact walk_clear (shortcut_same same none) ((core_same same x).mpr core)
  · by_contra shortcut
    obtain ⟨t', seeds', same, x, core, dead⟩ := shortcut_leaf shortcut
    exact clear t' seeds' same x core dead

end Shortcut

section Example

def shopNode (id kind : String) : Node := ⟨id, kind, id, .healthy, some [("namespace", .text "shop")]⟩

def shopEdge (source target : String) (type : EdgeType) : Edge := ⟨"", source, target, type, "", "", ""⟩

/-- A Deployment that also uses its ReplicaSet: the Pods below are lost. -/
def usedChild : UiTopology where
  nodes := [shopNode "web" "Deployment", shopNode "web-1" "ReplicaSet", shopNode "web-1-a" "Pod"]
  edges := [shopEdge "web" "web-1" .uses, shopEdge "web" "web-1" .manages,
    shopEdge "web-1" "web-1-a" .manages]
  warnings := none

theorem pod_lost : ¬ Exact usedChild [⟨"Deployment", "shop", "web"⟩] := by
  intro exact_
  have shown := exact_ usedChild [⟨"Deployment", "shop", "web"⟩]
    ⟨List.Perm.refl _, List.Perm.refl _, List.Perm.refl _⟩ (shopNode "web-1-a" "Pod")
  have lost : shopNode "web-1-a" "Pod" ∉
      (neighborhoodFor usedChild [⟨"Deployment", "shop", "web"⟩]).nodes := by decide
  have seed : Below usedChild [⟨"Deployment", "shop", "web"⟩] 0 "web" :=
    @Below.seed _ _ (shopNode "web" "Deployment") 0 (by decide) (by decide)
  have child : Below usedChild [⟨"Deployment", "shop", "web"⟩] 1 "web-1" :=
    .child seed ⟨shopEdge "web" "web-1" .manages, by decide, rfl, rfl, rfl⟩ (by decide)
  have pod : Below usedChild [⟨"Deployment", "shop", "web"⟩] 2 "web-1-a" :=
    .child child ⟨shopEdge "web-1" "web-1-a" .manages, by decide, rfl, rfl, rfl⟩ (by decide)
  exact lost (shown.mpr ⟨by decide, .inl ⟨2, pod⟩⟩)

end Example

end SeededNeighborhood
