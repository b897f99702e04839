import Radar.Base.FirstReach
import Radar.Base.KeyedFold
import Radar.Topology.SeededNeighborhood

/- packages/k8s-ui/src/utils/topology-neighborhood.ts: which workload owns a node of a neighborhood. -/
namespace OwnershipTags
open Topology NodeRef SeededNeighborhood List
variable {n : Node} {w x : String}

section Model

def workloadKey (ref : NeighborhoodSeed) : String := ref.kind ++ "/" ++ ref.namespace_ ++ "/" ++ ref.name

def nodeKey (node : Node) : String := workloadKey ⟨node.kind, nodeNamespaceFromData node, node.name⟩

def GITOPS_MANAGER_KINDS : List String := ["Application", "Kustomization", "HelmRelease", "GitRepository"]

structure OwnershipStamp where
  ownerWorkloadId : Option String
  ownerColorIndex : Option Nat
  focusWorkloadIds : List String
  deriving DecidableEq

/-- A node whose data carries a stamp beside the other keys. -/
structure TaggedNode where
  node : Node
  stamp : OwnershipStamp
  deriving DecidableEq

/-- A map keeps the order in which its keys first came: a color is a place in it. -/
def colorByWorkload (seeds : List NeighborhoodSeed) : List String :=
  Firsts.firsts id [] (seeds.map workloadKey)

variable (sub : UiTopology) (seeds : List NeighborhoodSeed)

def seedKeyById : List (String × String) :=
  ((sub.nodes.filter fun n => matchSeedNode n seeds).map fun n => (n.id, nodeKey n)).foldl
    (KeyedFold.put Prod.fst) []

def downChildren (id : String) : List String :=
  (sub.edges.filter fun e => e.type = .manages ∧ e.source = id).map Edge.target

def neighbors (id : String) : List String := Firsts.firsts (fun nb => nb) [] (sub.edges.flatMap fun e =>
    ([(e.source, e.target), (e.target, e.source)].filter fun ends => ends.1 = id).map Prod.snd)

/-- The queue of each seed in turn; the edges bound how often it is filled. -/
def coreOwner (id : String) : Option String := FirstReach.ownerOf
    (FirstReach.claimAll (downChildren sub) (sub.edges.length + 1) (seedKeyById sub seeds)) id

def related (id : String) : List String := Firsts.firsts (fun o => o) []
    ((neighbors sub id).filterMap fun nb => (coreOwner sub seeds nb).filter fun o => o ≠ "")

def stampOf (n : Node) : OwnershipStamp :=
  let (focusWorkloadIds, owner) := match (coreOwner sub seeds n.id).filter fun core => core ≠ "" with
    | some core => ([core], some core)
    | none =>
      let related := related sub seeds n.id
      (related, if related.length = 1 ∧ n.kind ∉ GITOPS_MANAGER_KINDS then related[0]? else none)
  ⟨owner, (owner.filter fun o => o ≠ "").bind fun o => (colorByWorkload seeds).idxOf? o, focusWorkloadIds⟩

/-- The stamp replaces what the data had under its keys. -/
def tagged (n : Node) : TaggedNode := ⟨{ n with data := some ((n.data.getD []).filter fun entry =>
      entry.1 ∉ ["ownerWorkloadId", "ownerColorIndex", "focusWorkloadIds"]) }, stampOf sub seeds n⟩

structure WorkloadOwnership where
  nodes : List TaggedNode
  edges : List Edge
  warnings : Option (List String)
  colorByWorkload : List String

def tagWorkloadOwnership (t : UiTopology) : WorkloadOwnership := let sub := neighborhoodFor t seeds
  ⟨sub.nodes.map (tagged sub seeds), sub.edges, sub.warnings, colorByWorkload seeds⟩

end Model

section Claims
variable (t : UiTopology) (seeds : List NeighborhoodSeed)

/-- The seed nodes of a workload and what they manage, and so on. -/
inductive Core (w : String) : String → Prop where
  | seed {node : Node} : node ∈ t.nodes → matchSeedNode node seeds = true → nodeKey node = w → Core w node.id
  | child {a b : String} : Core w a → Manages t a b → hasNode t b = true → Core w b

def Touches (w id : String) : Prop := ∃ a, Joined t id a ∧ Core t seeds w a

def Outside (id : String) : Prop := ∀ w, ¬ Core t seeds w id

/-- No core of another workload has it too. -/
def Single (id : String) : Prop := ∀ w w', Core t seeds w id → Core t seeds w' id → w = w'

/-- Neither the node nor, outside the cores, one beside it is in two cores. -/
def Plain (n : Node) : Prop :=
  Single t seeds n.id ∧ (Outside t seeds n.id → ∀ a, Joined t n.id a → Single t seeds a)

/-- A core node belongs to its workload; another one to all that it touches, and to one alone unless it
    is a GitOps manager. -/
structure Settled (n : Node) (stamp : OwnershipStamp) : Prop where
  core : ∀ w, Core t seeds w n.id → stamp.ownerWorkloadId = some w ∧ stamp.focusWorkloadIds = [w]
  focus : Outside t seeds n.id →
    stamp.focusWorkloadIds.Nodup ∧ ∀ w, w ∈ stamp.focusWorkloadIds ↔ Touches t seeds w n.id
  owner : Outside t seeds n.id → ∀ w, stamp.ownerWorkloadId = some w ↔
    (∀ w', Touches t seeds w' n.id ↔ w' = w) ∧ n.kind ∉ GITOPS_MANAGER_KINDS
  color : stamp.ownerColorIndex = stamp.ownerWorkloadId.bind (colorByWorkload seeds).idxOf? ∧
    ∀ w, stamp.ownerWorkloadId = some w → w ∈ colorByWorkload seeds

def SameStamp (a b : OwnershipStamp) : Prop :=
  a.ownerWorkloadId = b.ownerWorkloadId ∧ a.ownerColorIndex = b.ownerColorIndex ∧
    a.focusWorkloadIds.Perm b.focusWorkloadIds

/-- The tag of a node is of it and settled by the cores of the neighborhood. -/
def Tags (r : TaggedNode) (n : Node) : Prop :=
  r.node.id = n.id ∧ r.node.kind = n.kind ∧ r.node.name = n.name ∧ r.node.status = n.status ∧
    r.stamp = stampOf t seeds n ∧ (Plain t seeds n → Settled t seeds n r.stamp)

/-- Only what is in or beside the core of one workload alone has it as its owner. -/
def Exclusive : Prop := ∀ r ∈ (tagWorkloadOwnership seeds t).nodes, ∀ w, r.stamp.ownerWorkloadId = some w ↔
    (∀ w', Core t seeds w' r.node.id ∨ Touches t seeds w' r.node.id ↔ w' = w) ∧
      (r.node.kind ∈ GITOPS_MANAGER_KINDS → ¬ Outside t seeds r.node.id)

end Claims

section Cores
variable {t : UiTopology} {seeds : List NeighborhoodSeed} {w : String} {id : String}

/-- Both ends of every edge are nodes. -/
def Kept (t : UiTopology) : Prop := ∀ e ∈ t.edges, hasNode t e.source = true ∧ hasNode t e.target = true

theorem walk_known {id : String} (kept : id ∈ (walk t seeds).keep) : hasNode t id = true := by
  by_cases leafy : id ∈ (walk t seeds).leaf
  · obtain ⟨u, _, offered⟩ := walk_sound.side id leafy
    exact (joined_iff.mp ⟨true, offered⟩).1
  · obtain ⟨n, below⟩ := core_iff.mpr (walk_sound.core id kept leafy)
    exact below_node below

theorem neighborhood_kept : Kept (neighborhoodFor t seeds) := by
  have known : ∀ id, id ∈ (walk t seeds).keep →
      ((t.nodes.filter fun n => n.id ∈ (walk t seeds).keep).any fun n => n.id = id) = true := by
    intro id kept
    obtain ⟨node, inside, own⟩ := any_eq_true.mp (walk_known kept)
    obtain rfl : node.id = id := of_decide_eq_true own
    exact any_eq_true.mpr ⟨node, mem_filter.mpr ⟨inside, by simpa using kept⟩, by simp⟩
  unfold neighborhoodFor
  split
  · intro e none
    exact absurd none not_mem_nil
  · intro e member
    have ends := of_decide_eq_true (mem_filter.mp member).2
    exact ⟨known _ ends.1, known _ ends.2⟩

theorem mem_downChildren {a b : String} : b ∈ downChildren t a ↔ Manages t a b := by
  simp [downChildren, Manages, and_assoc]

theorem mem_neighbors {a b : String} : b ∈ neighbors t a ↔ Joined t a b := by
  have listed : b ∈ (t.edges.flatMap fun e =>
      ([(e.source, e.target), (e.target, e.source)].filter fun ends => ends.1 = a).map Prod.snd) ↔
      Joined t a b := by
    simp only [mem_flatMap, mem_map, mem_filter, mem_cons, not_mem_nil, or_false,
      decide_eq_true_eq, SeededNeighborhood.Joined]
    refine exists_congr fun e => and_congr_right fun _ => ?_
    constructor
    · rintro ⟨ends, ⟨rfl | rfl, own⟩, other⟩
      · exact .inl ⟨own, other⟩
      · exact .inr ⟨other, own⟩
    · rintro (⟨own, other⟩ | ⟨other, own⟩)
      · exact ⟨_, ⟨.inl rfl, own⟩, other⟩
      · exact ⟨_, ⟨.inr rfl, own⟩, other⟩
  rw [← listed]
  constructor
  · exact Firsts.firsts_mem
  · intro member
    obtain ⟨b', held, rfl⟩ := @Firsts.firsts_covers String String _ (fun nb => nb) [] _ _ member
    exact held

theorem seed_known {s : String × String} (member : s ∈ seedKeyById t seeds) :
    ∃ node ∈ t.nodes, matchSeedNode node seeds = true ∧ node.id = s.1 ∧ nodeKey node = s.2 := by
  have empty : (([] : List (String × String)).map Prod.fst).Nodup := nodup_nil
  have written := (KeyedFold.mem_putAll empty member).resolve_left not_mem_nil
  obtain ⟨node, inside, rfl⟩ := mem_map.mp written
  exact ⟨node, (mem_filter.mp inside).1, (mem_filter.mp inside).2, rfl, rfl⟩

theorem seed_listed {node : Node} (member : node ∈ t.nodes) (matched : matchSeedNode node seeds = true) :
    ∃ s ∈ seedKeyById t seeds, s.1 = node.id := by
  have written : (node.id, nodeKey node) ∈ (t.nodes.filter fun n => matchSeedNode n seeds).map
      fun n => (n.id, nodeKey n) := mem_map_of_mem (mem_filter.mpr ⟨member, matched⟩)
  exact mem_map.mp ((KeyedFold.putAll_keys _ _).mpr ⟨_, written, rfl⟩)

theorem down_bounded : FirstReach.Bounded (downChildren t) t.edges.length := by
  intro xs distinct
  have few := FirstReach.bounded_fibres (t.edges.filter fun e => e.type = .manages) Edge.source Edge.target
    xs distinct
  have same : ∀ id, downChildren t id =
      ((t.edges.filter fun e => e.type = .manages).filter fun e => e.source = id).map Edge.target := by
    intro id
    rw [downChildren, filter_filter]
    congr 1
    exact filter_congr fun e _ => by simp [and_comm]
  simp only [same]
  exact few.trans (length_filter_le _ _)

/-- What a node of a core leads to from owner to child is in it. -/
theorem core_path (kept : Kept t) {w a b : String} (core : Core t seeds w a)
    (path : Relation.ReflTransGen (fun a b => b ∈ downChildren t a) a b) : Core t seeds w b := by
  induction path with
  | refl => exact core
  | tail _ step ih =>
    obtain ⟨e, member, type, source, target⟩ := mem_downChildren.mp step
    exact .child ih ⟨e, member, type, source, target⟩ (target ▸ (kept e member).2)

theorem core_source (core : Core t seeds w id) : ∃ s ∈ seedKeyById t seeds,
    Relation.ReflTransGen (fun a b => b ∈ downChildren t a) s.1 id := by
  induction core with
  | seed member matched _ =>
    obtain ⟨s, listed, own⟩ := seed_listed member matched
    exact ⟨s, listed, own ▸ .refl⟩
  | child _ manages _ ih =>
    obtain ⟨s, listed, path⟩ := ih
    exact ⟨s, listed, path.tail (mem_downChildren.mpr manages)⟩

theorem owner_core (kept : Kept t) (found : coreOwner t seeds id = some w) : Core t seeds w id := by
  obtain ⟨s, member, key, path⟩ := FirstReach.held_reached _ (FirstReach.owner_some found)
  obtain ⟨node, inside, matched, own, same⟩ := seed_known member
  refine core_path kept ?_ path
  exact own ▸ .seed inside matched (same.trans key)

theorem owner_outside {id : String} (none : coreOwner t seeds id = none) : Outside t seeds id := by
  intro w core
  obtain ⟨s, member, path⟩ := core_source core
  exact FirstReach.owner_none none (FirstReach.reached_held down_bounded member path)

theorem owner_eq (kept : Kept t) (single : Single t seeds id) (core : Core t seeds w id) :
    coreOwner t seeds id = some w := by
  cases found : coreOwner t seeds id with
  | none => exact absurd core (owner_outside found w)
  | some w' => rw [single w w' core (owner_core kept found)]

theorem owner_none (kept : Kept t) {id : String} (outside : Outside t seeds id) :
    coreOwner t seeds id = none := by
  cases found : coreOwner t seeds id with
  | none => rfl
  | some w => exact absurd (owner_core kept found) (outside w)

theorem nodeKey_ne (node : Node) : nodeKey node ≠ "" := by
  intro empty
  have length := congrArg String.length empty
  simp [nodeKey, workloadKey, String.length_append] at length

/-- No core goes without a key. -/
theorem core_key (core : Core t seeds w id) : w ≠ "" := by
  induction core with
  | seed _ _ key => exact key ▸ nodeKey_ne _
  | child _ _ _ ih => exact ih

theorem core_color (core : Core t seeds w x) : w ∈ colorByWorkload seeds := by
  induction core with
  | @seed node _ matched key =>
    obtain ⟨s, member, same⟩ := any_eq_true.mp matched
    obtain ⟨kind, name, namespace_⟩ := of_decide_eq_true same
    have own : workloadKey s = w := by rw [← key, nodeKey, ← kind, ← name, ← namespace_]
    obtain ⟨w', held, rfl⟩ := @Firsts.firsts_covers String String _ id [] _ _ (mem_map_of_mem member)
    exact own ▸ held
  | child _ _ _ ih => exact ih

/-- The cores beside a node whose neighbours are in one core each at most. -/
theorem mem_related (kept : Kept t) {id : String} (single : ∀ a, Joined t id a → Single t seeds a) :
    w ∈ related t seeds id ↔ Touches t seeds w id := by
  have listed : w ∈ ((neighbors t id).filterMap fun nb => (coreOwner t seeds nb).filter fun o => o ≠ "") ↔
      Touches t seeds w id := by
    simp only [mem_filterMap, Option.filter_eq_some_iff, decide_eq_true_eq, mem_neighbors]
    constructor
    · rintro ⟨a, joined, found, _⟩
      exact ⟨a, joined, owner_core kept found⟩
    · rintro ⟨a, joined, core⟩
      exact ⟨a, joined, owner_eq kept (single a joined) core, core_key core⟩
  rw [← listed]
  constructor
  · exact Firsts.firsts_mem
  · intro member
    obtain ⟨w', held, rfl⟩ := @Firsts.firsts_covers String String _ (fun o => o) [] _ _ member
    exact held

theorem related_nodup (id : String) : (related t seeds id).Nodup := by
  have distinct := @Firsts.firsts_nodup String String _ (fun o => o) [] nodup_nil
    ((neighbors t id).filterMap fun nb => (coreOwner t seeds nb).filter fun o => o ≠ "")
  rwa [map_id'] at distinct

theorem only_iff {ws : List String} (distinct : ws.Nodup) :
    (ws.length = 1 ∧ ws[0]? = some w) ↔ ∀ w', w' ∈ ws ↔ w' = w := by
  have one : (ws.length = 1 ∧ ws[0]? = some w) ↔ ws = [w] := by
    cases ws with
    | nil => simp
    | cons first rest => simp [and_comm]
  rw [one, ← perm_singleton, perm_ext_iff_of_nodup distinct (nodup_singleton w)]
  simp

theorem some_truthy (key : w ≠ "") : (some w).filter (fun o => o ≠ "") = some w := by
  rw [Option.filter_some, if_pos (decide_eq_true key)]

theorem stamp_inside (kept : Kept t) (single : Single t seeds n.id) (core : Core t seeds w n.id) :
    stampOf t seeds n = ⟨some w, (colorByWorkload seeds).idxOf? w, [w]⟩ := by
  have truthy := some_truthy (core_key core)
  simp only [stampOf, owner_eq kept single core, truthy]
  rfl

theorem stamp_outside (kept : Kept t) (outside : Outside t seeds n.id) :
    (stampOf t seeds n).focusWorkloadIds = related t seeds n.id ∧
      ∀ w, (stampOf t seeds n).ownerWorkloadId = some w ↔
        ((related t seeds n.id).length = 1 ∧ (related t seeds n.id)[0]? = some w) ∧
          n.kind ∉ GITOPS_MANAGER_KINDS := by
  have none := owner_none kept outside
  refine ⟨by simp [stampOf, none], fun w => ?_⟩
  simp only [stampOf, none, Option.filter_none]
  by_cases one : (related t seeds n.id).length = 1 ∧ n.kind ∉ GITOPS_MANAGER_KINDS
  · rw [if_pos one]
    simp [one]
  · rw [if_neg one]
    constructor
    · intro no
      cases no
    · rintro ⟨⟨length, _⟩, unmanaged⟩
      exact absurd ⟨length, unmanaged⟩ one

/-- An owner is the key of some core. -/
theorem owner_keyed (kept : Kept t) (plain : Plain t seeds n)
    (owner : (stampOf t seeds n).ownerWorkloadId = some w) : ∃ x, Core t seeds w x := by
  by_cases inside : ∃ w', Core t seeds w' n.id
  · obtain ⟨w', core⟩ := inside
    rw [stamp_inside kept plain.1 core] at owner
    obtain rfl : w' = w := Option.some.inj owner
    exact ⟨n.id, core⟩
  · have outside : Outside t seeds n.id := fun w' core => inside ⟨w', core⟩
    obtain ⟨⟨_, first⟩, _⟩ := ((stamp_outside kept outside).2 w).mp owner
    obtain ⟨a, _, core⟩ := (mem_related kept (plain.2 outside)).mp (mem_of_getElem? first)
    exact ⟨a, core⟩

theorem stamp_settled (kept : Kept t) (plain : Plain t seeds n) :
    Settled t seeds n (stampOf t seeds n) where
  core := by
    intro w core
    rw [stamp_inside kept plain.1 core]
    exact ⟨rfl, rfl⟩
  focus := by
    intro outside
    rw [(stamp_outside kept outside).1]
    exact ⟨related_nodup n.id, fun w => mem_related kept (plain.2 outside)⟩
  owner := by
    intro outside w
    rw [(stamp_outside kept outside).2 w, only_iff (related_nodup n.id)]
    simp only [mem_related kept (plain.2 outside)]
  color := by
    refine ⟨?_, fun w owner => ?_⟩
    · have color : (stampOf t seeds n).ownerColorIndex = ((stampOf t seeds n).ownerWorkloadId.filter
          fun o => o ≠ "").bind fun o => (colorByWorkload seeds).idxOf? o := rfl
      rw [color]
      cases owner : (stampOf t seeds n).ownerWorkloadId with
      | none => rfl
      | some w =>
        obtain ⟨x, core⟩ := owner_keyed kept plain owner
        rw [some_truthy (core_key core)]
    · obtain ⟨x, core⟩ := owner_keyed kept plain owner
      exact core_color core

end Cores

section Alike
variable {t t' : UiTopology} {seeds : List NeighborhoodSeed}

/-- The same nodes and edges, in whatever order. -/
def Alike (t t' : UiTopology) : Prop := (∀ n, n ∈ t'.nodes ↔ n ∈ t.nodes) ∧ ∀ e, e ∈ t'.edges ↔ e ∈ t.edges

theorem hasNode_iff {id : String} : hasNode t id = true ↔ ∃ n ∈ t.nodes, n.id = id := by
  simp [hasNode]

theorem core_within (nodes : ∀ n ∈ t.nodes, n ∈ t'.nodes) (edges : ∀ e ∈ t.edges, e ∈ t'.edges)
    (core : Core t seeds w x) : Core t' seeds w x := by
  induction core with
  | seed member matched key => exact .seed (nodes _ member) matched key
  | child _ manages here ih =>
    obtain ⟨e, member, type, source, target⟩ := manages
    obtain ⟨n, inside, own⟩ := hasNode_iff.mp here
    exact .child ih ⟨e, edges e member, type, source, target⟩ (hasNode_iff.mpr ⟨n, nodes n inside, own⟩)

theorem core_alike (alike : Alike t t') (w x : String) : Core t' seeds w x ↔ Core t seeds w x :=
  ⟨core_within (fun n => (alike.1 n).mp) (fun e => (alike.2 e).mp),
    core_within (fun n => (alike.1 n).mpr) (fun e => (alike.2 e).mpr)⟩

theorem joined_alike (alike : Alike t t') (a b : String) : Joined t' a b ↔ Joined t a b := by
  simp only [SeededNeighborhood.Joined, alike.2]

theorem touches_alike (alike : Alike t t') (w x : String) : Touches t' seeds w x ↔ Touches t seeds w x := by
  simp only [Touches, joined_alike alike, core_alike alike]

theorem plain_alike (alike : Alike t t') : Plain t' seeds n ↔ Plain t seeds n := by
  simp only [Plain, Single, Outside, joined_alike alike, core_alike alike]

/-- The cores settle a stamp up to the order of its list. -/
theorem settled_unique (alike : Alike t t') {a b : OwnershipStamp} (first : Settled t seeds n a)
    (second : Settled t' seeds n b) : SameStamp b a := by
  have same : b.ownerWorkloadId = a.ownerWorkloadId ∧ b.focusWorkloadIds.Perm a.focusWorkloadIds := by
    by_cases inside : ∃ w, Core t seeds w n.id
    · obtain ⟨w, core⟩ := inside
      obtain ⟨owner, focus⟩ := first.core w core
      obtain ⟨owner', focus'⟩ := second.core w ((core_alike alike w n.id).mpr core)
      rw [owner, owner', focus, focus']
      exact ⟨rfl, List.Perm.refl _⟩
    · have outside : Outside t seeds n.id := fun w core => inside ⟨w, core⟩
      have outside' : Outside t' seeds n.id := fun w core => outside w ((core_alike alike w n.id).mp core)
      obtain ⟨distinct, listed⟩ := first.focus outside
      obtain ⟨distinct', listed'⟩ := second.focus outside'
      constructor
      · apply Option.ext
        intro w
        rw [first.owner outside, second.owner outside']
        simp only [touches_alike alike]
      · rw [perm_ext_iff_of_nodup distinct' distinct]
        intro w
        rw [listed, listed', touches_alike alike]
  refine ⟨same.1, ?_, same.2⟩
  rw [first.color.1, second.color.1, same.1]

theorem kept_iff {id : String} (some_ : seedIds t seeds ≠ []) :
    id ∈ (walk t seeds).keep ↔ hasNode (neighborhoodFor t seeds) id = true := by
  simp only [hasNode_iff, neighborhoodFor, if_neg some_, mem_filter, decide_eq_true_eq]
  constructor
  · intro kept
    obtain ⟨n, inside, rfl⟩ := hasNode_iff.mp (walk_known kept)
    exact ⟨n, ⟨inside, kept⟩, rfl⟩
  · rintro ⟨n, ⟨_, kept⟩, rfl⟩
    exact kept

/-- The neighborhood has the edges between its nodes. -/
theorem mem_neighborhood_edges {e : Edge} : e ∈ (neighborhoodFor t seeds).edges ↔
    e ∈ t.edges ∧ hasNode (neighborhoodFor t seeds) e.source = true ∧
      hasNode (neighborhoodFor t seeds) e.target = true := by
  by_cases none : seedIds t seeds = []
  · simp [neighborhoodFor, none, hasNode]
  · rw [← kept_iff none, ← kept_iff none]
    simp [neighborhoodFor, none]

theorem neighborhood_sub (member : n ∈ (neighborhoodFor t seeds).nodes) : n ∈ t.nodes := by
  unfold neighborhoodFor at member
  split at member
  · exact absurd member not_mem_nil
  · exact mem_of_mem_filter member

theorem neighborhood_alike (edges : t'.edges.Perm t.edges)
    (nodes : ∀ n, n ∈ (neighborhoodFor t' seeds).nodes ↔ n ∈ (neighborhoodFor t seeds).nodes) :
    Alike (neighborhoodFor t seeds) (neighborhoodFor t' seeds) := by
  refine ⟨nodes, fun e => ?_⟩
  simp only [mem_neighborhood_edges, edges.mem_iff, hasNode_iff, nodes]

theorem core_inCore (core : Core t seeds w x) : InCore t seeds x := by
  induction core with
  | seed member matched _ => exact ⟨0, .seed 0 member matched⟩
  | child _ manages here ih =>
    obtain ⟨n, below⟩ := ih
    exact ⟨n + 1, .child below manages here⟩

/-- Without a shortcut the neighborhood has every core whole. -/
theorem core_whole (none : NoShortcut t seeds) (w x : String) :
    Core (neighborhoodFor t seeds) seeds w x ↔ Core t seeds w x := by
  have exact_ := exact_of_none none t seeds ⟨List.Perm.refl _, List.Perm.refl _, List.Perm.refl _⟩
  have has : ∀ {w x}, Core t seeds w x → hasNode (neighborhoodFor t seeds) x = true := by
    intro w x core
    obtain ⟨n, below⟩ := core_inCore core
    obtain ⟨node, inside, rfl⟩ := hasNode_iff.mp (below_node below)
    exact hasNode_iff.mpr ⟨node, (exact_ node).mpr ⟨inside, .inl ⟨n, below⟩⟩, rfl⟩
  constructor
  · exact core_within (fun n => neighborhood_sub) (fun e member => (mem_neighborhood_edges.mp member).1)
  · intro core
    induction core with
    | seed member matched key =>
      exact .seed ((exact_ _).mpr ⟨member, .inl ⟨0, .seed 0 member matched⟩⟩) matched key
    | child core manages here ih =>
      have below := has (.child core manages here)
      obtain ⟨e, member, type, rfl, rfl⟩ := manages
      exact .child ih ⟨e, mem_neighborhood_edges.mpr ⟨member, has core, below⟩, type, rfl, rfl⟩ below

theorem touches_whole (none : NoShortcut t seeds) (member : n ∈ (neighborhoodFor t seeds).nodes)
    (w : String) : Touches (neighborhoodFor t seeds) seeds w n.id ↔ Touches t seeds w n.id := by
  constructor
  · rintro ⟨a, ⟨e, inside, ends⟩, core⟩
    exact ⟨a, ⟨e, (mem_neighborhood_edges.mp inside).1, ends⟩, (core_whole none w a).mp core⟩
  · rintro ⟨a, ⟨e, inside, ends⟩, core⟩
    have core' := (core_whole none w a).mpr core
    have here : hasNode (neighborhoodFor t seeds) n.id = true := hasNode_iff.mpr ⟨n, member, rfl⟩
    have there : hasNode (neighborhoodFor t seeds) a = true := by
      cases core' with
      | seed member _ _ => exact hasNode_iff.mpr ⟨_, member, rfl⟩
      | child _ _ here => exact here
    refine ⟨a, ⟨e, mem_neighborhood_edges.mpr ⟨inside, ?_⟩, ends⟩, core'⟩
    rcases ends with ⟨source, target⟩ | ⟨source, target⟩
    · exact ⟨source ▸ here, target ▸ there⟩
    · exact ⟨source ▸ there, target ▸ here⟩

theorem tags_all (t : UiTopology) (seeds : List NeighborhoodSeed) :
    List.Forall₂ (Tags (neighborhoodFor t seeds) seeds) (tagWorkloadOwnership seeds t).nodes
      (neighborhoodFor t seeds).nodes := by
  rw [tagWorkloadOwnership, forall₂_map_left_iff]
  exact forall₂_same.mpr fun n _ => ⟨rfl, rfl, rfl, rfl, rfl, stamp_settled neighborhood_kept⟩

/-- Each node is tagged by the cores that have it or are beside it, whatever the order. -/
theorem tagging_settled (t : UiTopology) (seeds : List NeighborhoodSeed) :
    List.Forall₂ (Tags (neighborhoodFor t seeds) seeds) (tagWorkloadOwnership seeds t).nodes
      (neighborhoodFor t seeds).nodes ∧
    (∀ t' : UiTopology, t'.nodes.Perm t.nodes → t'.edges.Perm t.edges →
      ((∀ n, n ∈ (neighborhoodFor t' seeds).nodes ↔ n ∈ (neighborhoodFor t seeds).nodes) ∨ NoShortcut t seeds) →
      ∀ n, Plain (neighborhoodFor t seeds) seeds n →
        SameStamp (stampOf (neighborhoodFor t' seeds) seeds n) (stampOf (neighborhoodFor t seeds) seeds n)) ∧
    (NoShortcut t seeds → ∀ w, (∀ x, Core (neighborhoodFor t seeds) seeds w x ↔ Core t seeds w x) ∧
      ∀ n ∈ (neighborhoodFor t seeds).nodes,
        (Touches (neighborhoodFor t seeds) seeds w n.id ↔ Touches t seeds w n.id)) := by
  refine ⟨tags_all t seeds, ?_, fun none w => ⟨core_whole none w, fun n member => touches_whole none member w⟩⟩
  intro t' nodes edges same n plain
  have alike : Alike (neighborhoodFor t seeds) (neighborhoodFor t' seeds) := by
    refine neighborhood_alike edges ?_
    rcases same with same | none
    · exact same
    · intro n
      have exact_ := exact_of_none none
      rw [exact_ t' seeds ⟨nodes, edges, List.Perm.refl _⟩,
        exact_ t seeds ⟨List.Perm.refl _, List.Perm.refl _, List.Perm.refl _⟩]
  exact settled_unique alike (stamp_settled neighborhood_kept plain)
    (stamp_settled neighborhood_kept ((plain_alike alike).mpr plain))

end Alike

section Example

/-- Two workloads with an edge between them. -/
def besideCore : UiTopology where
  nodes := [shopNode "a" "Deployment", shopNode "b" "Deployment"]
  edges := [shopEdge "a" "b" .uses]
  warnings := none

/-- A workload beside another one keeps its own. -/
theorem neighbor_owned :
    ¬ Exclusive besideCore [⟨"Deployment", "shop", "a"⟩, ⟨"Deployment", "shop", "b"⟩] := by
  intro exclusive
  have owned := exclusive (tagged besideCore [⟨"Deployment", "shop", "a"⟩, ⟨"Deployment", "shop", "b"⟩]
    (shopNode "a" "Deployment")) (by decide) "Deployment/shop/a"
  have only := (owned.mp (by decide)).1 "Deployment/shop/b"
  have core : Core besideCore [⟨"Deployment", "shop", "a"⟩, ⟨"Deployment", "shop", "b"⟩] "Deployment/shop/b" "b" :=
    @Core.seed _ _ _ (shopNode "b" "Deployment") (by decide) (by decide) (by decide)
  have same := only.mp (.inr ⟨"b", ⟨shopEdge "a" "b" .uses, by decide, .inl ⟨rfl, rfl⟩⟩, core⟩)
  exact absurd same (by decide)

end Example
end OwnershipTags
