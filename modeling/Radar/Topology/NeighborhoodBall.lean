import Mathlib.Data.Set.Card
import Radar.Base.LevelSearch
import Radar.Topology.Neighborhood

/- pkg/topology/neighborhood.go: what the walk returns is the ball around the root, cut to the node
   budget. -/
namespace NeighborhoodBall
open Topology NodeRef Neighborhood LevelSearch List
variable {allowedEdges : List EdgeType} {t : Graph}

def Walk.search (w : Walk) : Search String := ⟨w.order, w.next, w.denied, w.truncated⟩

def status (t : Graph) (opts : NeighborhoodOptions) (id : String) : Option Bool :=
  (nodeByID t id).map opts.allows

def room (opts : NeighborhoodOptions) (length : Nat) : Bool := decide (length < nodeBudget opts.maxNodes)

def offers (t : Graph) (idx : Option RelationshipsIndex) (allowedEdges : List EdgeType)
    (id : String) : List String :=
  (neighbors t idx allowedEdges id).map (otherEnd id)

section Search
variable (t : Graph) (idx : Option RelationshipsIndex) (opts : NeighborhoodOptions)
  (allowedEdges : List EdgeType)

theorem visit_search (id : String) (w : Walk) (e : Edge) : Walk.search (visitEdge t opts id w e) =
    offer (status t opts) (room opts) (Walk.search w) (otherEnd id e) := by
  unfold visitEdge offer status room Walk.search
  by_cases included : otherEnd id e ∈ w.order
  · simp [included]
  · by_cases noted : otherEnd id e ∈ w.denied
    · simp [included, noted]
    · cases found : nodeByID t (otherEnd id e) with
      | none => simp [included, noted, found]
      | some n =>
        cases allowed : opts.allows n with
        | false => simp [included, noted, found, allowed]
        | true =>
          by_cases full : nodeBudget opts.maxNodes ≤ w.order.length
          · simp [included, noted, found, allowed, full]
          · simp [included, noted, found, allowed, full, Nat.lt_of_not_le full]

theorem visits_search (id : String) (edges : List Edge) (w : Walk) :
    Walk.search (edges.foldl (visitEdge t opts id) w) =
      (edges.map (otherEnd id)).foldl (offer (status t opts) (room opts)) (Walk.search w) := by
  induction edges generalizing w with
  | nil => rfl
  | cons e rest ih =>
    rw [foldl_cons, ih, visit_search]
    rfl

theorem expand_search (frontier : List String) (w : Walk) :
    Walk.search (Neighborhood.expand t idx opts allowedEdges frontier w) =
      LevelSearch.expand (status t opts) (room opts) (offers t idx allowedEdges) frontier
        (Walk.search w) := by
  induction frontier generalizing w with
  | nil => rfl
  | cons id rest ih =>
    have visited := visits_search t opts id (neighbors t idx allowedEdges id) w
    have flag := congrArg Search.truncated visited
    simp only [Walk.search] at flag
    simp only [Neighborhood.expand, LevelSearch.expand, offers]
    rw [flag, apply_ite Walk.search, visited, ih, visited]
    rfl

theorem walk_search (hops : Nat) (frontier : List String) (w : Walk) :
    Walk.search (walkHops t idx opts allowedEdges hops frontier w) =
      levels (status t opts) (room opts) (offers t idx allowedEdges) hops frontier
        (Walk.search w) := by
  induction hops generalizing frontier w with
  | zero => rfl
  | succ hops ih =>
    have reached : LevelSearch.expand (status t opts) (room opts) (offers t idx allowedEdges)
        frontier { Walk.search w with next := [] } =
          Walk.search (Neighborhood.expand t idx opts allowedEdges frontier { w with next := [] }) :=
      (expand_search t idx opts allowedEdges frontier { w with next := [] }).symm
    simp only [walkHops, levels, reached, apply_ite Walk.search, ih]
    rfl

end Search

theorem budget_positive (maxNodes : Int) : 0 < nodeBudget maxNodes := by
  unfold nodeBudget
  split <;> omega

theorem room_iff (opts : NeighborhoodOptions) (length : Nat) :
    room opts length = true ↔ length < nodeBudget opts.maxNodes := decide_eq_true_iff

/-- The walk from the identifier of a root. -/
def walkFrom (t : Graph) (idx : Option RelationshipsIndex) (opts : NeighborhoodOptions)
    (allowedEdges : List EdgeType) (id : String) : Walk :=
  walkHops t idx opts allowedEdges (clampHops opts.hops) [id] ⟨[id], [], [], false⟩

def shownBy (t : Graph) (root : ResourceRef) (allowedEdges : List EdgeType) (w : Walk) : Subgraph where
  root := root
  nodes := w.order.filterMap (nodeByID t)
  edges := t.edges.filter fun e => allowedEdges.contains e.type &&
    w.order.contains e.source && w.order.contains e.target
  truncated := w.truncated
  rbacDenied := w.denied.length
  ambiguousRoot := false

theorem subgraph_shown (t : Graph) (root : ResourceRef) (opts : NeighborhoodOptions)
    (idx : Option RelationshipsIndex) (rootNode : Node) :
    subgraphFrom t root opts idx rootNode = shownBy t root (edgeTypesForProfile opts.profile rootNode.kind)
        (walkFrom t idx opts (edgeTypesForProfile opts.profile rootNode.kind) rootNode.id) := rfl

theorem walk_exact (t : Graph) (idx : Option RelationshipsIndex) (opts : NeighborhoodOptions)
    (allowedEdges : List EdgeType) (id : String) :
    Exact (status t opts) (room opts) (offers t idx allowedEdges) id (clampHops opts.hops)
      (Walk.search (walkFrom t idx opts allowedEdges id)) := by
  have start : Level (status t opts) (room opts) (offers t idx allowedEdges) id 0 [] [id]
      (Walk.search ⟨[id], [], [], false⟩) := level_start id []
  have reached := levels_exact (clampHops opts.hops) start
  rwa [Nat.zero_add, ← walk_search] at reached

/-- Joined by an edge of an allowed type, whichever way it points. -/
def Joined (t : Graph) (allowedEdges : List EdgeType) (a b : String) : Prop :=
  ∃ e ∈ t.edges, e.type ∈ allowedEdges ∧ (e.source = a ∧ e.target = b ∨ e.source = b ∧ e.target = a)

theorem mem_neighbors {indexed : Bool} {id : String} (named : indexed = true → id ≠ "") (e : Edge) :
    e ∈ neighbors t (indexFor indexed t) allowedEdges id ↔
      e ∈ t.edges ∧ e.type ∈ allowedEdges ∧ (e.source = id ∨ e.target = id) := by
  cases indexed with
  | false => simp [neighbors, indexFor]
  | true =>
    simp only [neighbors, indexFor, indexByResource, named rfl, if_true, if_false, mem_append,
      mem_filter, contains_eq_mem, decide_eq_true_eq, beq_iff_eq]
    constructor
    · rintro (⟨⟨member, source⟩, allowed⟩ | ⟨⟨member, target⟩, allowed⟩)
      · exact ⟨member, allowed, .inl source⟩
      · exact ⟨member, allowed, .inr target⟩
    · rintro ⟨member, allowed, source | target⟩
      · exact .inl ⟨⟨member, source⟩, allowed⟩
      · exact .inr ⟨⟨member, target⟩, allowed⟩

theorem mem_offers {indexed : Bool} {id : String} (named : indexed = true → id ≠ "") (other : String) :
    other ∈ offers t (indexFor indexed t) allowedEdges id ↔ Joined t allowedEdges id other := by
  unfold offers Joined
  simp only [mem_map, mem_neighbors named, otherEnd]
  constructor
  · rintro ⟨e, ⟨member, allowed, touches⟩, rfl⟩
    refine ⟨e, member, allowed, ?_⟩
    by_cases source : e.source = id
    · rw [if_pos source]
      exact .inl ⟨source, rfl⟩
    · rw [if_neg source]
      exact .inr ⟨rfl, touches.resolve_left source⟩
  · rintro ⟨e, member, allowed, ⟨source, target⟩ | ⟨source, target⟩⟩
    · exact ⟨e, ⟨member, allowed, .inl source⟩, by rw [if_pos source, target]⟩
    · refine ⟨e, ⟨member, allowed, .inr target⟩, ?_⟩
      by_cases loop : e.source = id
      · rw [if_pos loop, target, ← loop, source]
      · rw [if_neg loop, source]

/-- A step to an allowed node along an edge of an allowed type. -/
def Beside (t : Graph) (opts : NeighborhoodOptions) (allowedEdges : List EdgeType) (a b : Node) : Prop :=
  b ∈ t.nodes ∧ opts.allows b = true ∧ Joined t allowedEdges a.id b.id

/-- The allowed nodes within the clamped distance of the root, through allowed nodes. -/
def ball (t : Graph) (opts : NeighborhoodOptions) (rootNode : Node) : Set Node :=
  Set.ofPred (Within (Beside t opts (edgeTypesForProfile opts.profile rootNode.kind)) rootNode
    (clampHops opts.hops))

section Ball
variable {t : Graph} {opts : NeighborhoodOptions} {indexed : Bool}
  {rootNode : Node}

theorem status_allowed (distinct : DistinctIDs t) {id : String} :
    status t opts id = some true ↔ ∃ n ∈ t.nodes, n.id = id ∧ opts.allows n = true := by
  simp only [status, Option.map_eq_some_iff, node_by_id_some distinct, and_assoc]

theorem within_member (member : rootNode ∈ t.nodes) {hops : Nat} {n : Node}
    (near : Within (Beside t opts allowedEdges) rootNode hops n) : n ∈ t.nodes := by
  cases near with
  | root => exact member
  | further _ taken => exact taken.1

/-- The identifiers near the root are those of the nodes near it. -/
theorem within_ids (distinct : DistinctIDs t) (member : rootNode ∈ t.nodes)
    (named : indexed = true → ∀ n ∈ t.nodes, n.id ≠ "") (hops : Nat) (id : String) :
    Within (Step (status t opts) (offers t (indexFor indexed t) allowedEdges)) rootNode.id hops id ↔
      ∃ n, n.id = id ∧ Within (Beside t opts allowedEdges) rootNode hops n := by
  constructor
  · intro near
    induction near with
    | root hops => exact ⟨rootNode, rfl, .root hops⟩
    | further _ taken ih =>
      obtain ⟨a, rfl, near⟩ := ih
      have inside := within_member member near
      obtain ⟨b, known, rfl, allowed⟩ := (status_allowed distinct).mp taken.2
      have joined := (mem_offers (fun on => named on a inside) b.id).mp taken.1
      exact ⟨b, rfl, .further near ⟨known, allowed, joined⟩⟩
  · rintro ⟨n, rfl, near⟩
    induction near with
    | root hops => exact .root hops
    | @further hops a b near taken ih =>
      have inside := within_member member near
      have offered := (mem_offers (fun on => named on a inside) b.id).mpr taken.2.2
      exact .further ih ⟨offered, (status_allowed distinct).mpr ⟨b, taken.1, rfl, taken.2.1⟩⟩

theorem ball_finite (member : rootNode ∈ t.nodes) : (ball t opts rootNode).Finite :=
  (finite_toSet t.nodes).subset fun _ near => within_member member near

/-- Of the identifiers found each has its node. -/
theorem shown_ids (distinct : DistinctIDs t) {order : List String}
    (found : ∀ id ∈ order, ∃ n ∈ t.nodes, n.id = id) :
    (order.filterMap (nodeByID t)).map Node.id = order := by
  induction order with
  | nil => rfl
  | cons id rest ih =>
    obtain ⟨n, member, named⟩ := found id mem_cons_self
    have lookup := (node_by_id_some distinct).mpr ⟨member, named⟩
    rw [filterMap_cons_some lookup, map_cons, named,
      ih fun id' member' => found id' (mem_cons_of_mem id member')]

theorem shown_iff (distinct : DistinctIDs t) (order : List String) (n : Node) :
    n ∈ order.filterMap (nodeByID t) ↔ n ∈ t.nodes ∧ n.id ∈ order := by
  simp only [mem_filterMap, node_by_id_some distinct]
  constructor
  · rintro ⟨id, found, member, rfl⟩
    exact ⟨member, found⟩
  · rintro ⟨member, found⟩
    exact ⟨n.id, found, member, rfl⟩

/-- A list of different nodes of the ball is longer than the limit just where one of different
    identifiers is. -/
theorem ball_large (distinct : DistinctIDs t) (member : rootNode ∈ t.nodes) (limit : Nat) :
    (∃ ids : List String, ids.Nodup ∧
      (∀ id ∈ ids, ∃ n, n.id = id ∧ n ∈ ball t opts rootNode) ∧ limit < ids.length) ↔
    limit < (ball t opts rootNode).ncard := by
  have injective : Set.InjOn Node.id (ball t opts rootNode) := fun a first b second same =>
    distinct_node distinct (within_member member first) (within_member member second) same
  have finite : (Node.id '' ball t opts rootNode).Finite := (ball_finite member).image Node.id
  rw [← injective.ncard_image]
  constructor
  · rintro ⟨ids, once, near, long⟩
    have inside : (ids.toFinset : Set String) ⊆ Node.id '' ball t opts rootNode := by
      intro id found
      obtain ⟨n, named, close⟩ := near id (mem_toFinset.mp found)
      exact ⟨n, close, named⟩
    have fewer := Set.ncard_le_ncard inside finite
    rw [Set.ncard_coe_finset, toFinset_card_of_nodup once] at fewer
    exact Nat.lt_of_lt_of_le long fewer
  · intro large
    refine ⟨finite.toFinset.toList, Finset.nodup_toList _, fun id found => ?_, ?_⟩
    · obtain ⟨n, close, named⟩ := finite.mem_toFinset.mp (Finset.mem_toList.mp found)
      exact ⟨n, named, close⟩
    · rwa [Finset.length_toList, ← Set.ncard_eq_toFinset_card _ finite]

end Ball

/-- The subgraph is the ball, cut to so many nodes. -/
structure ShowsBall (t : Graph) (opts : NeighborhoodOptions) (limit : Int) (rootNode : Node)
    (s : Subgraph) : Prop where
  distinct : s.nodes.Nodup
  rootFirst : s.nodes.head? = some rootNode
  bounded : s.nodes.length ≤ limit
  allowed : ∀ n ∈ s.nodes, opts.allows n = true
  near : ∀ n ∈ s.nodes, n ∈ ball t opts rootNode
  whole : s.truncated = false → ∀ n ∈ ball t opts rootNode, n ∈ s.nodes
  truncated : s.truncated = true ↔ limit < (ball t opts rootNode).ncard
  edges : s.edges = t.edges.filter fun e =>
    decide (e.type ∈ edgeTypesForProfile opts.profile rootNode.kind) &&
      ((s.nodes.map Node.id).contains e.source && (s.nodes.map Node.id).contains e.target)

theorem within_allowed {opts : NeighborhoodOptions}
    {rootNode n : Node} (allowed : opts.allows rootNode = true) {hops : Nat}
    (near : Within (Beside t opts allowedEdges) rootNode hops n) : opts.allows n = true := by
  cases near with
  | root => exact allowed
  | further _ taken => exact taken.2.1

theorem subgraph_shows_ball (distinct : DistinctIDs t) (root : ResourceRef)
    (opts : NeighborhoodOptions) (indexed : Bool) {rootNode : Node} (member : rootNode ∈ t.nodes)
    (allowed : opts.allows rootNode = true) (named : indexed = true → ∀ n ∈ t.nodes, n.id ≠ "") :
    ShowsBall t opts (nodeBudget opts.maxNodes) rootNode
      (subgraphFrom t root opts (indexFor indexed t) rootNode) := by
  rw [subgraph_shown]
  have ids : ∀ id, Within (Step (status t opts) (offers t (indexFor indexed t)
      (edgeTypesForProfile opts.profile rootNode.kind))) rootNode.id (clampHops opts.hops) id ↔
        ∃ n, n.id = id ∧ n ∈ ball t opts rootNode :=
    within_ids distinct member named (clampHops opts.hops)
  have exact_ := walk_exact t (indexFor indexed t) opts
    (edgeTypesForProfile opts.profile rootNode.kind) rootNode.id
  generalize walkFrom t _ opts _ _ = w at exact_ ⊢
  have close : ∀ id ∈ w.order, ∃ n ∈ ball t opts rootNode, n.id = id := by
    intro id found
    obtain ⟨n, is_, near⟩ := (ids id).mp (exact_.inside id found)
    exact ⟨n, near, is_⟩
  have shown := shown_ids distinct fun id found => by
    obtain ⟨n, near, is_⟩ := close id found
    exact ⟨n, within_member member near, is_⟩
  have near : ∀ n ∈ w.order.filterMap (nodeByID t), n ∈ ball t opts rootNode := by
    intro n listed
    obtain ⟨inside, found⟩ := (shown_iff distinct w.order n).mp listed
    obtain ⟨m, near, is_⟩ := close n.id found
    rwa [distinct_node distinct inside (within_member member near) is_.symm]
  simp only [shownBy]
  refine ⟨?_, ?_, ?_, fun n listed => within_allowed allowed (near n listed), near, ?_, ?_, ?_⟩
  · exact List.Nodup.of_map Node.id (shown.symm ▸ exact_.distinct)
  · obtain ⟨rest, order⟩ := head?_eq_some_iff.mp exact_.rooted
    have lookup := (node_by_id_some distinct).mpr ⟨member, rfl⟩
    rw [show w.order = rootNode.id :: rest from order, filterMap_cons_some lookup, head?_cons]
  · have few := order_length_le (budget_positive opts.maxNodes) (room_iff opts) exact_
    rw [← length_map Node.id, shown]
    exact Int.ofNat_le.mpr few
  · intro full n close'
    have found := exact_.whole full n.id ((ids n.id).mpr ⟨n, rfl, close'⟩)
    exact (shown_iff distinct w.order n).mpr ⟨within_member member close', found⟩
  · have cut := truncated_iff (budget_positive opts.maxNodes) (room_iff opts) exact_
    simp only [ids] at cut
    rw [Int.ofNat_lt, ← ball_large distinct member]
    exact cut
  · simp only [shown, contains_eq_mem, Bool.and_assoc]

theorem neighborhood_shows_ball (casing : Casing) (dp : Option DynamicProvider) (indexed : Bool)
    (t : Graph) (root : ResourceRef) (opts : NeighborhoodOptions) (rootNode : Node)
    (distinct : DistinctIDs t) (resolved : resolveRoot casing dp t root = .node rootNode)
    (allowed : opts.allows rootNode = true) (named : indexed = true → ∀ n ∈ t.nodes, n.id ≠ "") :
    ShowsBall t opts (nodeBudget opts.maxNodes) rootNode
      (buildNeighborhoodWithIndex casing (some t) root opts (indexFor indexed t) dp) := by
  have shows_ := subgraph_shows_ball distinct root opts indexed (resolved_member resolved)
    allowed named
  simpa [buildNeighborhoodWithIndex, resolved, allowed] using shows_

def webPod (id : String) : Node := ⟨id, "Pod", "web", .healthy, some [("namespace", .text "shop")]⟩

def webService : Node :=
  ⟨"service/shop/web", "Service", "web", .healthy, some [("namespace", .text "shop")]⟩

def exposed (id : String) : Edge := ⟨"exposes", "service/shop/web", id, .exposes, "", "", ""⟩

/-- A service before its pod, under whatever identifier the pod has. -/
def shop (id : String) : Graph := ⟨[webService, webPod id], [exposed id]⟩

def webRef : ResourceRef := ⟨"Pod", "shop", "web", ""⟩

def upTo (maxNodes : Int) : NeighborhoodOptions := ⟨.auto, 1, maxNodes, none⟩

theorem web_neighborhood : ShowsBall (shop "pod/shop/web") (upTo 2) 2 (webPod "pod/shop/web")
      (buildNeighborhoodWithIndex asciiCasing (some (shop "pod/shop/web")) webRef (upTo 2)
        (indexFor true (shop "pod/shop/web")) none) :=
  neighborhood_shows_ball asciiCasing none true (shop "pod/shop/web") webRef (upTo 2)
    (webPod "pod/shop/web") (by decide) (by decide) rfl (by decide)

/-- A budget of zero is the default budget, and the index keeps no edge of a node without an
    identifier. -/
theorem ball_missed : (¬ ∀ (indexed : Bool) (t : Graph) (root : ResourceRef) (opts : NeighborhoodOptions)
        (rootNode : Node), DistinctIDs t → resolveRoot asciiCasing none t root = .node rootNode →
        opts.allows rootNode = true → ShowsBall t opts opts.maxNodes rootNode
          (buildNeighborhoodWithIndex asciiCasing (some t) root opts (indexFor indexed t) none)) ∧
    ¬ ∀ (t : Graph) (root : ResourceRef) (opts : NeighborhoodOptions) (rootNode : Node),
        DistinctIDs t → resolveRoot asciiCasing none t root = .node rootNode →
        opts.allows rootNode = true → ShowsBall t opts (nodeBudget opts.maxNodes) rootNode
          (buildNeighborhoodWithIndex asciiCasing (some t) root opts (indexFor true t) none) := by
  constructor
  · intro claimed
    have shows_ := claimed false (shop "pod/shop/web") webRef (upTo 0) (webPod "pod/shop/web")
      (by decide) (by decide) rfl
    exact absurd shows_.bounded (by decide)
  · intro claimed
    have shows_ := claimed (shop "") webRef (upTo 25) (webPod "") (by decide) (by decide) rfl
    have near : webService ∈ ball (shop "") (upTo 25) (webPod "") := by
      refine .further (.root 0) ⟨List.mem_cons_self, rfl, exposed "", List.mem_cons_self, ?_⟩
      exact ⟨by decide, .inr ⟨rfl, rfl⟩⟩
    exact absurd (shows_.whole (by decide) webService near) (by decide)

end NeighborhoodBall
