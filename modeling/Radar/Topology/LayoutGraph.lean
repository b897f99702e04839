import Radar.Base.Arrange
import Radar.Base.Firsts
import Radar.Base.GoText
import Radar.Base.KeyedFold
import Radar.Base.WriteMap

/- packages/k8s-ui/src/components/topology: buildHierarchicalElkGraph of layout.ts, and the collapsedGroups that
   TopologyGraph.tsx derives from the levels. Sizes are left out. -/
namespace LayoutGraph
open KeyedFold List

section Model

structure TopologyNode where
  id : String
  kind : String
  name : String
  namespace_ : Option String
  labels : List (String × String)

structure TopologyEdge where
  id : String
  source : String
  target : String

inductive GroupingMode where
  | none | namespace_ | app
  deriving DecidableEq

def GroupingMode.text : GroupingMode → String
  | .none => "none"
  | .namespace_ => "namespace"
  | .app => "app"

inductive GroupDisplayLevel where
  | chip | cardGrid | topology
  deriving DecidableEq

/-- A text that JavaScript takes for true. -/
def truthy (text : Option String) : Option String := text.filter fun t => t ≠ ""

def getAppLabel (node : TopologyNode) : Option String :=
  (truthy (node.labels.lookup "app.kubernetes.io/name")).or
    ((truthy (node.labels.lookup "app")).or (truthy (node.labels.lookup "app.kubernetes.io/instance")))

section Propagation
variable (kindPriority : String → Nat) (nodes : List TopologyNode) (edges : List TopologyEdge)

def nodeOf (id : String) : Option TopologyNode := nodes.find? fun n => n.id = id

/-- The nodes that edges within one namespace join to a node, in both directions. -/
def connections (id : String) : List String := (edges.flatMap fun e =>
    match nodeOf nodes e.source, nodeOf nodes e.target with
    | some source, some target =>
      if source.namespace_ = target.namespace_ then
        (if e.source = id then [e.target] else []) ++ (if e.target = id then [e.source] else [])
      else []
    | _, _ => []).eraseDups

abbrev Labels := List (String × String)

/-- One label more where the connected nodes have exactly one between them. -/
def inherit (state : Labels × Bool) (node : TopologyNode) : Labels × Bool :=
  if (state.1.lookup node.id).isSome then state
  else
    match ((connections nodes edges node.id).filterMap fun id => truthy (state.1.lookup id)).eraseDups with
    | [label] => (WriteMap.set state.1 (node.id, label), true)
    | _ => state

def propagate : Nat → Labels → Labels
  | 0, labels => labels
  | rounds + 1, labels =>
    let next := nodes.foldl (inherit nodes edges) (labels, false)
    if next.2 then propagate rounds next.1 else next.1

/-- The search from a node through unlabelled ones: what it visited, and the component. -/
def search (labels : Labels) : Nat → List String → List String → List TopologyNode → List String × List TopologyNode
  | 0, _, visited, component => (visited, component)
  | _ + 1, [], visited, component => (visited, component)
  | fuel + 1, nodeId :: queue, visited, component =>
    let next := (connections nodes edges nodeId).filter fun id => id ∉ visited ∧ (labels.lookup id).isNone
    search labels fuel (queue ++ next) (visited ++ next)
      (component ++ (nodeOf nodes nodeId).toList.filter fun n => (labels.lookup n.id).isNone)

def pickGroupName (component : List TopologyNode) : String :=
  (((Arrange.sortStable (fun a b => decide (kindPriority a.kind < kindPriority b.kind)) component).head?).map
    TopologyNode.name).getD ""

def nameComponent (state : Labels × List String) (startNode : TopologyNode) : Labels × List String :=
  if startNode.id ∈ state.2 then state
  else
    let found := search nodes edges state.1 (nodes.length + 1) [startNode.id] (state.2 ++ [startNode.id]) []
    if 1 < found.2.length then
      (found.2.foldl (fun labels n => WriteMap.set labels (n.id, pickGroupName kindPriority found.2)) state.1, found.1)
    else (state.1, found.1)

def propagateAppLabels : Labels :=
  let direct := nodes.filterMap fun n => (getAppLabel n).map fun label => (n.id, label)
  let labels := propagate nodes edges 10 direct
  ((nodes.filter fun n => (labels.lookup n.id).isNone).foldl (nameComponent kindPriority nodes edges) (labels, [])).1

def groupKeyOf (mode : GroupingMode) (node : TopologyNode) : Option String := match mode with
  | .none => none
  | .namespace_ => truthy node.namespace_
  | .app => (truthy ((propagateAppLabels kindPriority nodes edges).lookup node.id)).or (getAppLabel node)

end Propagation

/-- A direct child of the root: a node, an expanded group with the nodes in it, or a collapsed one. -/
structure ElkNode where
  id : String
  children : Option (List String)
  labels : List String

structure ElkEdge where
  id : String
  source : String
  target : String
  deriving DecidableEq

structure ElkGraph where
  children : List ElkNode
  edges : List ElkEdge

/-- A Map from group IDs to levels, without the empty one's distinction from undefined. -/
structure Levels where
  entries : List (String × GroupDisplayLevel)
  keyed : WriteMap.Keyed entries

def Levels.get (levels : Levels) (groupId : String) : Option GroupDisplayLevel := levels.entries.lookup groupId

/-- TopologyGraph.tsx: both chips and card grids are collapsed. -/
def collapsedGroups (levels : Levels) : List String := (levels.entries.filter fun e => e.2 ≠ .topology).map Prod.fst

def groupPrefix (mode : GroupingMode) : String := "group-" ++ mode.text ++ "-"

def groupId (mode : GroupingMode) (groupKey : String) : String := groupPrefix mode ++ groupKey

/-- The members of each group, the groups in the order in which they first come. -/
def grouping : Folding (String × String) (String × List String) String where
  keyOf := Prod.fst
  key := Prod.fst
  start := fun x => (x.1, [])
  add := fun g x => (g.1, g.2 ++ [x.2])
  key_start := fun _ => rfl
  key_add := fun _ _ => rfl

section Graph
variable (keyOf : TopologyNode → Option String) (nodes : List TopologyNode) (mode : GroupingMode) (levels : Levels)

def keyedNodes : List (String × String) := nodes.filterMap fun n => (keyOf n).map fun k => (k, n.id)

def groupMap : List (String × List String) := grouping.gather (keyedNodes keyOf nodes)

def nodeToGroup (id : String) : Option String := ((nodeOf nodes id).bind keyOf).map (groupId mode)

def hasLevelsForCurrentMode : Bool := levels.entries.any fun e => GoText.hasPrefix e.1 (groupPrefix mode)

def isCollapsed (group : String) : Bool :=
  group ∈ collapsedGroups levels || (hasLevelsForCurrentMode mode levels && levels.get group != some .topology)

def groupNode (g : String × List String) : ElkNode :=
  if isCollapsed mode levels (groupId mode g.1) then ⟨groupId mode g.1, none, [g.1]⟩
  else ⟨groupId mode g.1, some (g.2.filter fun id => (nodeOf nodes id).isSome), [g.1]⟩

def leafNode (n : TopologyNode) : ElkNode := ⟨n.id, none, []⟩

def elkChildren : List ElkNode := if mode = .none then nodes.map leafNode
  else
    let groups := groupMap keyOf nodes
    let processedNodes := groups.flatMap Prod.snd
    groups.map (groupNode nodes mode levels) ++ (nodes.filter fun n => n.id ∉ processedNodes).map leafNode

/-- An end of an edge, at its group where that is collapsed. -/
def redirect (id : String) : String := match nodeToGroup keyOf nodes mode id with
  | some group => if group ∈ collapsedGroups levels then group else id
  | none => id

def redirected (e : TopologyEdge) : ElkEdge :=
  ⟨e.id, redirect keyOf nodes mode levels e.source, redirect keyOf nodes mode levels e.target⟩

def ElkEdge.edgeKey (e : ElkEdge) : String := e.source ++ "->" ++ e.target

/-- The edges that are no loops, and of each key the first. -/
def pushEdge (state : List String × List ElkEdge) (e : ElkEdge) : List String × List ElkEdge :=
  if e.source = e.target then state
  else if e.edgeKey ∈ state.1 then state
  else (e.edgeKey :: state.1, state.2 ++ [e])

end Graph

def buildHierarchicalElkGraph (kindPriority : String → Nat) (nodes : List TopologyNode) (edges : List TopologyEdge)
    (mode : GroupingMode) (levels : Levels) : ElkGraph where
  children := elkChildren (groupKeyOf kindPriority nodes edges mode) nodes mode levels
  edges := ((edges.map (redirected (groupKeyOf kindPriority nodes edges mode) nodes mode levels)).foldl pushEdge ([], [])).2

end Model

variable {n : TopologyNode}

section Statement

/-- Nodes with distinct IDs, and edges between them. -/
structure Topology where
  nodes : List TopologyNode
  edges : List TopologyEdge
  distinct : (nodes.map TopologyNode.id).Nodup
  joined : ∀ e ∈ edges, (∃ n ∈ nodes, n.id = e.source) ∧ ∃ n ∈ nodes, n.id = e.target

def asItself (id : String) (c : ElkNode) : List String := if c.id = id then [c.id] else []

def asGroup (group : Option String) (id : String) (c : ElkNode) : List String :=
  (c.children.getD []).filter (fun child => child = id) ++ if c.children = none ∧ group = some c.id then [c.id] else []

/-- The ways in which a child of the root represents a node: as itself, in an expanded group, or as its collapsed group. -/
def ways (group : Option String) (id : String) (c : ElkNode) : List String := asItself id c ++ asGroup group id c

def representatives (graph : ElkGraph) (group : Option String) (id : String) : List String :=
  graph.children.flatMap (ways group id)

def ElkGraph.ids (graph : ElkGraph) : List String := graph.children.flatMap fun c => c.id :: c.children.getD []

def ElkEdge.ends (e : ElkEdge) : String × String := (e.source, e.target)

/-- The group's element by its ID, for each node. -/
structure WellFormed (nodes : List TopologyNode) (edges : List TopologyEdge) (groupOf : String → Option String) (graph : ElkGraph) :
    Prop where
  once : ∀ n ∈ nodes, (representatives graph (groupOf n.id) n.id).length = 1
  known : ∀ e ∈ graph.edges, e.source ∈ graph.ids ∧ e.target ∈ graph.ids
  loopless : ∀ e ∈ graph.edges, e.source ≠ e.target
  single : (graph.edges.map ElkEdge.ends).Nodup
  covered : ∀ e ∈ edges, ∀ a ∈ representatives graph (groupOf e.source) e.source,
    ∀ b ∈ representatives graph (groupOf e.target) e.target, a ≠ b → (graph.edges.filter fun f => f.ends = (a, b)).length = 1

variable (keyOf : TopologyNode → Option String) (nodes : List TopologyNode) (edges : List TopologyEdge) (mode : GroupingMode)
  (levels : Levels)

/-- What represents a node: its group where that is collapsed. -/
def represent (id : String) : String := match nodeToGroup keyOf nodes mode id with
  | some group => if isCollapsed mode levels group then group else id
  | none => id

/-- The redirected edges with their ends apart. -/
def candidates : List ElkEdge := (edges.map (redirected keyOf nodes mode levels)).filter fun e => e.source ≠ e.target

/-- The first candidate that spells the edge's key has other ends. -/
def Masked (e : TopologyEdge) : Prop :=
  ∃ f, (candidates keyOf nodes edges mode levels).find? (fun d => d.edgeKey = (redirected keyOf nodes mode levels e).edgeKey) =
    some f ∧ f.ends ≠ (redirected keyOf nodes mode levels e).ends

/-- No node has a group's ID; an edge goes to what represents its ends, and is masked by another where that is one element. -/
structure Agreeing : Prop where
  apart : ∀ n ∈ nodes, ∀ m ∈ nodes, nodeToGroup keyOf nodes mode m.id ≠ some n.id
  redirects : ∀ e ∈ edges, redirect keyOf nodes mode levels e.source ≠ redirect keyOf nodes mode levels e.target →
    represent keyOf nodes mode levels e.source ≠ represent keyOf nodes mode levels e.target →
      redirect keyOf nodes mode levels e.source = represent keyOf nodes mode levels e.source ∧
      redirect keyOf nodes mode levels e.target = represent keyOf nodes mode levels e.target ∧
      ¬ Masked keyOf nodes edges mode levels e
  within : ∀ e ∈ edges, redirect keyOf nodes mode levels e.source ≠ redirect keyOf nodes mode levels e.target →
    represent keyOf nodes mode levels e.source = represent keyOf nodes mode levels e.target →
      Masked keyOf nodes edges mode levels e

end Statement

section Groups
variable {keyOf : TopologyNode → Option String} {nodes : List TopologyNode} {mode : GroupingMode} {levels : Levels}

theorem nodeOf_mem (distinct : (nodes.map TopologyNode.id).Nodup) (member : n ∈ nodes) :
    nodeOf nodes n.id = some n := by
  unfold nodeOf
  induction nodes with
  | nil => cases member
  | cons d rest ih =>
    rw [map_cons, nodup_cons] at distinct
    cases mem_cons.mp member with
    | inl here => rw [here, find?_cons_of_pos (by simp)]
    | inr later =>
      have other : d.id ≠ n.id := fun same => distinct.1 (same ▸ mem_map_of_mem later)
      rw [find?_cons_of_neg (by simpa using other), ih distinct.2 later]

theorem nodeToGroup_mem (distinct : (nodes.map TopologyNode.id).Nodup) (member : n ∈ nodes) :
    nodeToGroup keyOf nodes mode n.id = (keyOf n).map (groupId mode) := by
  rw [nodeToGroup, nodeOf_mem distinct member]
  rfl

theorem groupId_inj {k k' : String} (same : groupId mode k = groupId mode k') : k = k' := by
  have letters := congrArg String.toList same
  rw [groupId, groupId, String.toList_append, String.toList_append] at letters
  exact String.toList_inj.mp (append_cancel_left letters)

theorem groupMap_keyed : WriteMap.Keyed (groupMap keyOf nodes) := (gather_spec (F := grouping) _).1

theorem keyed_members (k : String) (nodes : List TopologyNode) :
    ((keyedNodes keyOf nodes).filter fun y => decide (y.1 = k)).map Prod.snd =
      (nodes.filter fun n => keyOf n = some k).map TopologyNode.id := by
  unfold keyedNodes
  induction nodes with
  | nil => rfl
  | cons n rest ih =>
    cases key : keyOf n with
    | none => simp [key, ih]
    | some l =>
      by_cases same : l = k
      · simp [key, same, ih]
      · simp [key, same, ih]

/-- A group's members are the nodes of its key. -/
theorem groupMap_members {g : String × List String} (member : g ∈ groupMap keyOf nodes) :
    g.2 = (nodes.filter fun n => keyOf n = some g.1).map TopologyNode.id := by
  obtain ⟨x, rest, listed, whole⟩ := (gather_spec (F := grouping) _).2.2 g member
  have added : ∀ (xs : List (String × String)) (h : String × List String), (xs.foldl grouping.add h).2 = h.2 ++ xs.map Prod.snd := by
    intro xs
    induction xs with
    | nil => simp
    | cons y rest ih =>
      intro h
      rw [foldl_cons, ih]
      simp [grouping]
  have all : g.2 = ((keyedNodes keyOf nodes).filter fun y => decide (y.1 = g.1)).map Prod.snd := by
    have second := congrArg Prod.snd whole
    rw [added] at second
    exact second
  rw [all, keyed_members]

theorem groupMap_has {k : String} : k ∈ (groupMap keyOf nodes).map Prod.fst ↔ ∃ n ∈ nodes, keyOf n = some k := by
  refine ((gather_spec (F := grouping) _).2.1 k).trans ?_
  unfold keyedNodes
  simp only [mem_filterMap, Option.map_eq_some_iff]
  constructor
  · rintro ⟨x, ⟨n, member, l, key, rfl⟩, rfl⟩
    exact ⟨n, member, key⟩
  · rintro ⟨n, member, key⟩
    exact ⟨(k, n.id), ⟨n, member, k, key, rfl⟩, rfl⟩

/-- The one member with a node's ID. -/
theorem member_filter (distinct : (nodes.map TopologyNode.id).Nodup) (member : n ∈ nodes) (keep : TopologyNode → Bool) :
    ((nodes.filter keep).map TopologyNode.id).filter (fun id => id = n.id) = if keep n then [n.id] else [] := by
  induction nodes with
  | nil => cases member
  | cons d rest ih =>
    rw [map_cons, nodup_cons] at distinct
    have absent : ∀ id : String, id ∉ rest.map TopologyNode.id →
        ((rest.filter keep).map TopologyNode.id).filter (fun other => other = id) = [] := by
      intro id away
      rw [filter_eq_nil_iff]
      intro other listed same
      obtain ⟨m, kept, rfl⟩ := mem_map.mp listed
      exact away (of_decide_eq_true same ▸ mem_map_of_mem (mem_filter.mp kept).1)
    cases mem_cons.mp member with
    | inl here =>
      subst here
      by_cases kept : keep n = true
      · rw [if_pos kept, filter_cons_of_pos kept, map_cons, filter_cons_of_pos (by simp), absent n.id distinct.1]
      · rw [if_neg kept, filter_cons_of_neg kept, absent n.id distinct.1]
    | inr later =>
      have other : d.id ≠ n.id := fun same => distinct.1 (same ▸ mem_map_of_mem later)
      have step : (((d :: rest).filter keep).map TopologyNode.id).filter (fun id => id = n.id) =
          ((rest.filter keep).map TopologyNode.id).filter (fun id => id = n.id) := by
        by_cases kept : keep d = true
        · rw [filter_cons_of_pos kept, map_cons, filter_cons_of_neg (by simpa using other)]
        · rw [filter_cons_of_neg kept]
      rw [step, ih distinct.2 later]

/-- The groups, and after them the nodes without one. -/
theorem children_split (distinct : (nodes.map TopologyNode.id).Nodup) (ungrouped : mode = .none → ∀ n, keyOf n = none) : elkChildren keyOf nodes mode levels =
    (groupMap keyOf nodes).map (groupNode nodes mode levels) ++ (nodes.filter fun n => keyOf n = none).map leafNode := by
  unfold elkChildren
  by_cases none : mode = .none
  · have keyless := ungrouped none
    have groups : groupMap keyOf nodes = [] := by
      have empty : keyedNodes keyOf nodes = [] := by simp [keyedNodes, keyless]
      rw [groupMap, empty]
      rfl
    rw [if_pos none, groups]
    simp [keyless]
  · rw [if_neg none]
    have processed : ∀ n ∈ nodes, n.id ∉ (groupMap keyOf nodes).flatMap Prod.snd ↔ keyOf n = Option.none := by
      intro n member
      constructor
      · intro absent
        cases key : keyOf n with
        | none => rfl
        | some k =>
          obtain ⟨g, listed, same⟩ := mem_map.mp (groupMap_has.mpr ⟨n, member, key⟩)
          apply absurd _ absent
          apply mem_flatMap_of_mem listed
          rw [groupMap_members listed]
          exact mem_map_of_mem (mem_filter.mpr ⟨member, by simp [key, same]⟩)
      · intro keyless present
        obtain ⟨g, listed, inside⟩ := mem_flatMap.mp present
        rw [groupMap_members listed] at inside
        obtain ⟨m, kept, same⟩ := mem_map.mp inside
        have equal := inj_on_of_nodup_map distinct (mem_filter.mp kept).1 member same
        have key := (mem_filter.mp kept).2
        rw [equal, keyless] at key
        simp at key
    have loose : (nodes.filter fun n => n.id ∉ (groupMap keyOf nodes).flatMap Prod.snd) = nodes.filter fun n => keyOf n = Option.none := by
      apply filter_congr
      intro n member
      exact decide_eq_decide.mpr (processed n member)
    simp only [loose]

end Groups

section Representation
variable {keyOf : TopologyNode → Option String} {nodes : List TopologyNode} {mode : GroupingMode} {levels : Levels}

def Apart (keyOf : TopologyNode → Option String) (nodes : List TopologyNode) (mode : GroupingMode) : Prop :=
  ∀ n ∈ nodes, ∀ m ∈ nodes, nodeToGroup keyOf nodes mode m.id ≠ some n.id

theorem represent_mem (distinct : (nodes.map TopologyNode.id).Nodup) (member : n ∈ nodes) :
    represent keyOf nodes mode levels n.id = match keyOf n with
      | some k => if isCollapsed mode levels (groupId mode k) then groupId mode k else n.id
      | none => n.id := by
  rw [represent, nodeToGroup_mem distinct member]
  cases keyOf n <;> rfl

theorem flatMap_same (ms : List TopologyNode) (id : String) :
    (ms.flatMap fun m => if m.id = id then [m.id] else []) = (ms.map TopologyNode.id).filter fun other => other = id := by
  induction ms with
  | nil => rfl
  | cons m rest ih =>
    by_cases same : m.id = id <;> simp [same, ih]

theorem flatMap_key (groups : List (String × List String)) (k r : String) :
    (groups.flatMap fun g => if some k = some g.1 then [r] else []) = (groups.filter fun g => g.1 = k).map fun _ => r := by
  induction groups with
  | nil => rfl
  | cons g rest ih =>
    rw [flatMap_cons, ih]
    by_cases same : g.1 = k
    · rw [if_pos (congrArg some same.symm), filter_cons_of_pos (by simpa using same)]
      rfl
    · rw [if_neg fun equal => same (Option.some.inj equal).symm, filter_cons_of_neg (by simpa using same)]
      rfl

/-- A group represents the nodes of its key, and no other. -/
theorem group_ways (distinct : (nodes.map TopologyNode.id).Nodup) (apart : Apart keyOf nodes mode)
    (member : n ∈ nodes) {g : String × List String} (listed : g ∈ groupMap keyOf nodes) :
    ways (nodeToGroup keyOf nodes mode n.id) n.id (groupNode nodes mode levels g) =
      if keyOf n = some g.1 then [represent keyOf nodes mode levels n.id] else [] := by
  obtain ⟨m, member', key⟩ := groupMap_has.mp (mem_map_of_mem listed)
  have other : groupId mode g.1 ≠ n.id := by
    intro same
    apply apart n member m member'
    rw [nodeToGroup_mem distinct member', key, ← same]
    rfl
  have own : nodeToGroup keyOf nodes mode n.id = some (groupId mode g.1) ↔ keyOf n = some g.1 := by
    rw [nodeToGroup_mem distinct member, Option.map_eq_some_iff]
    constructor
    · rintro ⟨k, key, same⟩
      rw [key, groupId_inj same]
    · exact fun key => ⟨g.1, key, rfl⟩
  rw [groupNode]
  by_cases collapsed : isCollapsed mode levels (groupId mode g.1) = true
  · rw [if_pos collapsed]
    simp only [ways, asItself, asGroup, if_neg other, own, Option.getD_none, filter_nil, nil_append, true_and]
    by_cases here : keyOf n = some g.1
    · rw [if_pos here, if_pos here, represent_mem distinct member, here]
      simp [collapsed]
    · rw [if_neg here, if_neg here]
  · have known : g.2.filter (fun id => (nodeOf nodes id).isSome) = g.2 := by
      rw [filter_eq_self, groupMap_members listed]
      intro id within
      obtain ⟨d, kept, rfl⟩ := mem_map.mp within
      rw [nodeOf_mem distinct (mem_filter.mp kept).1]
      rfl
    have inside := member_filter distinct member fun d => keyOf d = some g.1
    rw [← groupMap_members listed] at inside
    rw [if_neg collapsed, known]
    simp only [ways, asItself, asGroup, if_neg other, Option.getD_some, inside, nil_append, reduceCtorEq, false_and, if_false, append_nil]
    by_cases here : keyOf n = some g.1
    · rw [if_pos here, if_pos (by simpa using here), represent_mem distinct member, here]
      simp [collapsed]
    · rw [if_neg here, if_neg (by simpa using here)]

theorem representatives_eq (distinct : (nodes.map TopologyNode.id).Nodup) (apart : Apart keyOf nodes mode)
    (ungrouped : mode = .none → ∀ n, keyOf n = none) (member : n ∈ nodes) (es : List ElkEdge) :
    representatives ⟨elkChildren keyOf nodes mode levels, es⟩ (nodeToGroup keyOf nodes mode n.id) n.id =
      [represent keyOf nodes mode levels n.id] := by
  rw [representatives, children_split distinct ungrouped, flatMap_append, flatMap_map, flatMap_map]
  have leaf : ∀ m ∈ nodes.filter (fun m => keyOf m = none), ways (nodeToGroup keyOf nodes mode n.id) n.id (leafNode m) =
      if m.id = n.id then [m.id] else [] := by
    intro m kept
    have foreign := apart m (mem_filter.mp kept).1 n member
    have own : ¬ ((leafNode m).children = none ∧ nodeToGroup keyOf nodes mode n.id = some (leafNode m).id) :=
      fun both => foreign both.2
    rw [ways, asGroup, if_neg own, append_nil]
    exact append_nil _
  have loose : ((nodes.filter fun m => keyOf m = none).flatMap fun m => ways (nodeToGroup keyOf nodes mode n.id) n.id (leafNode m)) =
      if keyOf n = none then [n.id] else [] := by
    have filtered := member_filter distinct member fun m => keyOf m = none
    rw [flatMap_congr leaf, flatMap_same, filtered]
    simp
  have grouped : ((groupMap keyOf nodes).flatMap fun g => ways (nodeToGroup keyOf nodes mode n.id) n.id (groupNode nodes mode levels g)) =
      if keyOf n = none then [] else [represent keyOf nodes mode levels n.id] := by
    rw [flatMap_congr fun g listed => group_ways distinct apart member listed]
    cases key : keyOf n with
    | none => simp
    | some k =>
      obtain ⟨⟨l, ids⟩, listed, rfl⟩ := mem_map.mp (groupMap_has.mpr ⟨n, member, key⟩)
      rw [flatMap_key, WriteMap.filter_key groupMap_keyed listed]
      rfl
  rw [grouped, loose]
  cases key : keyOf n with
  | none => simp [represent_mem distinct member, key]
  | some k => simp

theorem length_flatMap_pos {α β : Type} {l : List α} {x : α} (member : x ∈ l) {f : α → List β} (some : f x ≠ []) :
    0 < (l.flatMap f).length := by
  obtain ⟨b, held⟩ := exists_mem_of_ne_nil _ some
  exact length_pos_of_mem (mem_flatMap_of_mem member held)

theorem length_flatMap_append {α β : Type} (l : List α) (f g : α → List β) :
    (l.flatMap fun x => f x ++ g x).length = (l.flatMap f).length + (l.flatMap g).length := by
  induction l with
  | nil => rfl
  | cons x rest ih =>
    simp only [flatMap_cons, length_append, ih]
    omega

/-- A group's ID is no node's, where each node is represented once. -/
theorem apart_of_once (distinct : (nodes.map TopologyNode.id).Nodup) (ungrouped : mode = .none → ∀ n, keyOf n = none)
    (es : List ElkEdge) (once : ∀ n ∈ nodes,
      (representatives ⟨elkChildren keyOf nodes mode levels, es⟩ (nodeToGroup keyOf nodes mode n.id) n.id).length = 1) :
    Apart keyOf nodes mode := by
  intro n member m member' clash
  have single := once n member
  rw [nodeToGroup_mem distinct member', Option.map_eq_some_iff] at clash
  obtain ⟨k, key, same⟩ := clash
  obtain ⟨g, listed, rfl⟩ := mem_map.mp (groupMap_has.mpr ⟨m, member', key⟩)
  have named : (groupNode nodes mode levels g).id = n.id := by
    rw [groupNode]
    split <;> exact same
  have direct : asItself n.id (groupNode nodes mode levels g) ≠ [] := by
    rw [asItself, if_pos named]
    exact cons_ne_nil _ _
  have first := length_flatMap_pos listed (f := fun g => asItself n.id (groupNode nodes mode levels g)) direct
  have split := length_flatMap_append (groupMap keyOf nodes) (fun g => asItself n.id (groupNode nodes mode levels g))
    fun g => asGroup (nodeToGroup keyOf nodes mode n.id) n.id (groupNode nodes mode levels g)
  rw [representatives, children_split distinct ungrouped, flatMap_append, flatMap_map, flatMap_map,
    length_append] at single
  simp only [ways] at single
  cases own : keyOf n with
  | none =>
    have loose : n ∈ nodes.filter fun n => keyOf n = none := mem_filter.mpr ⟨member, by simp [own]⟩
    have second := length_flatMap_pos loose (f := fun m => asItself n.id (leafNode m) ++ asGroup (nodeToGroup keyOf nodes mode n.id) n.id (leafNode m))
      (by simp [asItself, leafNode])
    omega
  | some k =>
    obtain ⟨g', listed', key'⟩ := mem_map.mp (groupMap_has.mpr ⟨n, member, own⟩)
    have inside : n.id ∈ g'.2 := by
      rw [groupMap_members listed']
      exact mem_map_of_mem (mem_filter.mpr ⟨member, by simp [own, key']⟩)
    have group : nodeToGroup keyOf nodes mode n.id = some (groupId mode g'.1) := by
      rw [nodeToGroup_mem distinct member, own, key']
      rfl
    have within : asGroup (nodeToGroup keyOf nodes mode n.id) n.id (groupNode nodes mode levels g') ≠ [] := by
      rw [asGroup, group, groupNode]
      split
      · simp
      · apply append_ne_nil_of_left_ne_nil
        apply ne_nil_of_mem
        exact mem_filter.mpr ⟨mem_filter.mpr ⟨inside, by rw [nodeOf_mem distinct member]; rfl⟩, by simp⟩
    have second := length_flatMap_pos listed'
      (f := fun g => asGroup (nodeToGroup keyOf nodes mode n.id) n.id (groupNode nodes mode levels g)) within
    omega

end Representation

section Edges
variable {keyOf : TopologyNode → Option String} {nodes : List TopologyNode} {mode : GroupingMode} {levels : Levels}

/-- The loop over the edges keeps of each key the first that is no loop. -/
theorem pushEdge_firsts (es : List ElkEdge) :
    (es.foldl pushEdge ([], [])).2 = Firsts.firsts ElkEdge.edgeKey [] (es.filter fun e => e.source ≠ e.target) := by
  have loop : ∀ (es : List ElkEdge) (state : List String × List ElkEdge), (∀ k, k ∈ state.1 ↔ k ∈ state.2.map ElkEdge.edgeKey) →
      (es.foldl pushEdge state).2 = Firsts.firsts ElkEdge.edgeKey state.2 (es.filter fun e => e.source ≠ e.target) := by
    intro es
    induction es with
    | nil => exact fun state _ => rfl
    | cons e rest ih =>
      intro state seen
      rw [foldl_cons, pushEdge]
      by_cases loop : e.source = e.target
      · rw [if_pos loop, filter_cons_of_neg (by simpa using loop), ih state seen]
      · rw [if_neg loop, filter_cons_of_pos (by simpa using loop), Firsts.firsts]
        by_cases known : e.edgeKey ∈ state.1
        · rw [if_pos known, if_pos ((seen _).mp known), ih state seen]
        · rw [if_neg known, if_neg fun member => known ((seen _).mpr member), ih]
          intro k
          rw [mem_cons, map_append, mem_append, seen]
          simp [or_comm]
  exact loop es ([], []) fun k => by simp

variable (keyOf mode levels) in
theorem redirect_cases (distinct : (nodes.map TopologyNode.id).Nodup) (member : n ∈ nodes) :
    (∃ k, keyOf n = some k ∧ groupId mode k ∈ collapsedGroups levels ∧ redirect keyOf nodes mode levels n.id = groupId mode k ∧
        represent keyOf nodes mode levels n.id = groupId mode k) ∨
      redirect keyOf nodes mode levels n.id = n.id ∧ (represent keyOf nodes mode levels n.id = n.id ∨
        ∃ k, keyOf n = some k ∧ groupId mode k ∉ collapsedGroups levels ∧ represent keyOf nodes mode levels n.id = groupId mode k) := by
  rw [represent_mem distinct member, redirect, nodeToGroup_mem distinct member]
  cases key : keyOf n with
  | none => exact .inr ⟨rfl, .inl rfl⟩
  | some k =>
    simp only [Option.map_some, isCollapsed]
    by_cases collapsed : groupId mode k ∈ collapsedGroups levels
    · exact .inl ⟨k, rfl, collapsed, by simp [collapsed], by simp [collapsed]⟩
    · by_cases late : (hasLevelsForCurrentMode mode levels && levels.get (groupId mode k) != some .topology) = true
      · exact .inr ⟨by simp [collapsed], .inr ⟨k, rfl, collapsed, by simp [late]⟩⟩
      · exact .inr ⟨by simp [collapsed], .inl (by simp [collapsed, late])⟩

theorem apart_group (distinct : (nodes.map TopologyNode.id).Nodup) (apart : Apart keyOf nodes mode) {n m : TopologyNode}
    (member : n ∈ nodes) (member' : m ∈ nodes) {k : String} (key : keyOf m = some k) : n.id ≠ groupId mode k := by
  intro same
  apply apart n member m member'
  rw [nodeToGroup_mem distinct member', key, same]
  rfl

/-- Ends that an edge would lose as a loop are represented by one element. -/
theorem redirect_loop (distinct : (nodes.map TopologyNode.id).Nodup) (apart : Apart keyOf nodes mode) {n m : TopologyNode}
    (member : n ∈ nodes) (member' : m ∈ nodes)
    (same : redirect keyOf nodes mode levels n.id = redirect keyOf nodes mode levels m.id) :
    represent keyOf nodes mode levels n.id = represent keyOf nodes mode levels m.id := by
  rcases redirect_cases keyOf mode levels distinct member with ⟨k, key, _, moved, rep⟩ | ⟨stay, _⟩ <;>
    rcases redirect_cases keyOf mode levels distinct member' with ⟨k', key', _, moved', rep'⟩ | ⟨stay', _⟩
  · rw [rep, rep', ← moved, ← moved', same]
  · exact absurd (stay'.symm.trans (same.symm.trans moved)) (apart_group distinct apart member' member key)
  · exact absurd (stay.symm.trans (same.trans moved')) (apart_group distinct apart member member' key')
  · rw [stay, stay'] at same
    rw [same]

/-- An element that some end is redirected to is what the ends it represents are redirected to. -/
theorem redirect_settles (distinct : (nodes.map TopologyNode.id).Nodup) (apart : Apart keyOf nodes mode) {n m : TopologyNode}
    (member : n ∈ nodes) (member' : m ∈ nodes)
    (hit : redirect keyOf nodes mode levels m.id = represent keyOf nodes mode levels n.id) :
    redirect keyOf nodes mode levels n.id = represent keyOf nodes mode levels n.id := by
  rcases redirect_cases keyOf mode levels distinct member with
    ⟨k, _, _, moved, rep⟩ | ⟨stay, rep | ⟨k, key, open_, rep⟩⟩
  · rw [moved, rep]
  · rw [stay, rep]
  · rw [rep] at hit
    rcases redirect_cases keyOf mode levels distinct member' with ⟨k', _, shut, moved, _⟩ | ⟨stay', _⟩
    · exact absurd (moved.symm.trans hit ▸ shut) open_
    · exact absurd (stay'.symm.trans hit) (apart_group distinct apart member' member key)

/-- What has a node's ID in the graph represents it. -/
theorem represents_of_id {graph : ElkGraph} (group : Option String) {id : String} (listed : id ∈ graph.ids) :
    id ∈ representatives graph group id := by
  obtain ⟨c, member, here⟩ := mem_flatMap.mp listed
  refine mem_flatMap.mpr ⟨c, member, ?_⟩
  cases mem_cons.mp here with
  | inl same => simp [ways, asItself, ← same]
  | inr inside => simp [ways, asGroup, inside]

theorem id_of_represents {graph : ElkGraph} (group : Option String) (id : String) {a : String} (represents : a ∈ representatives graph group id) :
    a ∈ graph.ids := by
  obtain ⟨c, member, way⟩ := mem_flatMap.mp represents
  refine mem_flatMap.mpr ⟨c, member, ?_⟩
  simp only [ways, asItself, asGroup, mem_append] at way
  rcases way with itself | inside | own
  · split at itself
    · exact mem_cons.mpr (.inl (mem_singleton.mp itself))
    · cases itself
  · exact mem_cons.mpr (.inr (mem_filter.mp inside).1)
  · split at own
    · exact mem_cons.mpr (.inl (mem_singleton.mp own))
    · cases own

/-- An end that the graph knows is redirected to what represents it. -/
theorem redirect_known (distinct : (nodes.map TopologyNode.id).Nodup) (apart : Apart keyOf nodes mode)
    (ungrouped : mode = .none → ∀ n, keyOf n = none) {es : List ElkEdge} (member : n ∈ nodes)
    (known : redirect keyOf nodes mode levels n.id ∈ ElkGraph.ids ⟨elkChildren keyOf nodes mode levels, es⟩) :
    redirect keyOf nodes mode levels n.id = represent keyOf nodes mode levels n.id := by
  rcases redirect_cases keyOf mode levels distinct member with ⟨k, _, _, moved, rep⟩ | ⟨stay, _⟩
  · rw [moved, rep]
  · rw [stay] at known ⊢
    have represents := represents_of_id (nodeToGroup keyOf nodes mode n.id) known
    rw [representatives_eq distinct apart ungrouped member] at represents
    exact mem_singleton.mp represents

end Edges

section Conclusion
variable {keyOf : TopologyNode → Option String} {mode : GroupingMode} {levels : Levels} {t : Topology} {gs : List ElkEdge}

/-- The edges of a graph are the first candidates of each key. -/
def Kept (keyOf : TopologyNode → Option String) (t : Topology) (mode : GroupingMode) (levels : Levels) (gs : List ElkEdge) : Prop :=
  gs = Firsts.firsts ElkEdge.edgeKey [] (candidates keyOf t.nodes t.edges mode levels)

theorem kept_iff (kept : Kept keyOf t mode levels gs) (x : ElkEdge) :
    x ∈ gs ↔ (candidates keyOf t.nodes t.edges mode levels).find? (fun d => d.edgeKey = x.edgeKey) = some x := by
  rw [show gs = _ from kept, Firsts.mem_firsts_iff]
  simp

theorem kept_origin (kept : Kept keyOf t mode levels gs) {x : ElkEdge} (member : x ∈ gs) :
    ∃ e ∈ t.edges, redirected keyOf t.nodes mode levels e = x ∧ x.source ≠ x.target := by
  have found := mem_of_find?_eq_some ((kept_iff kept x).mp member)
  rw [candidates, mem_filter, mem_map] at found
  obtain ⟨⟨e, listed, same⟩, loopless⟩ := found
  exact ⟨e, listed, same, by simpa using loopless⟩

theorem kept_single (kept : Kept keyOf t mode levels gs) : (gs.map ElkEdge.ends).Nodup := by
  have keys : (gs.map ElkEdge.edgeKey).Nodup := by
    have start : (([] : List ElkEdge).map ElkEdge.edgeKey).Nodup := nodup_nil
    rw [show gs = _ from kept]
    exact Firsts.firsts_nodup start _
  apply List.Nodup.of_map fun ends : String × String => ends.1 ++ "->" ++ ends.2
  rw [map_map]
  exact keys

/-- An edge with its ends apart is in the graph, unless it is masked. -/
theorem present_iff (kept : Kept keyOf t mode levels gs) {e : TopologyEdge} (listed : e ∈ t.edges)
    (loopless : redirect keyOf t.nodes mode levels e.source ≠ redirect keyOf t.nodes mode levels e.target) :
    ¬ Masked keyOf t.nodes t.edges mode levels e ↔ ∃ x ∈ gs, x.ends = (redirected keyOf t.nodes mode levels e).ends := by
  have candidate : redirected keyOf t.nodes mode levels e ∈ candidates keyOf t.nodes t.edges mode levels :=
    mem_filter.mpr ⟨mem_map_of_mem listed, decide_eq_true loopless⟩
  constructor
  · intro clear
    cases found : (candidates keyOf t.nodes t.edges mode levels).find?
        (fun d => d.edgeKey = (redirected keyOf t.nodes mode levels e).edgeKey) with
    | none =>
      rw [find?_eq_none] at found
      exact absurd (decide_eq_true rfl) (found _ candidate)
    | some d =>
      have key : d.edgeKey = (redirected keyOf t.nodes mode levels e).edgeKey := by simpa using find?_some found
      refine ⟨d, (kept_iff kept d).mpr (key ▸ found), ?_⟩
      by_contra differ
      exact clear ⟨d, found, differ⟩
  · rintro ⟨x, member, same⟩ ⟨f, found, differ⟩
    have key : x.edgeKey = (redirected keyOf t.nodes mode levels e).edgeKey :=
      congrArg (fun ends : String × String => ends.1 ++ "->" ++ ends.2) same
    have own := (kept_iff kept x).mp member
    rw [key, found] at own
    exact differ (Option.some.inj own ▸ same)

theorem count_ends {ends : String × String} (single : (gs.map ElkEdge.ends).Nodup) :
    (gs.filter fun f => f.ends = ends).length = 1 ↔ ∃ x ∈ gs, x.ends = ends := by
  constructor
  · intro one
    obtain ⟨x, member⟩ := exists_mem_of_length_pos (l := gs.filter fun f => f.ends = ends) (by omega)
    exact ⟨x, (mem_filter.mp member).1, by simpa using (mem_filter.mp member).2⟩
  · rintro ⟨x, member, rfl⟩
    have count := count_eq_one_of_mem single (mem_map_of_mem member)
    rw [List.count, List.countP_map, List.countP_eq_length_filter] at count
    rw [← count]
    apply congrArg length
    apply filter_congr
    intro f _
    by_cases same : f.ends = x.ends <;> simp [same]

theorem agreeing_of_wellFormed (ungrouped : mode = .none → ∀ n, keyOf n = none) (kept : Kept keyOf t mode levels gs)
    (well : WellFormed t.nodes t.edges (nodeToGroup keyOf t.nodes mode) ⟨elkChildren keyOf t.nodes mode levels, gs⟩) :
    Agreeing keyOf t.nodes t.edges mode levels := by
  have apart := apart_of_once t.distinct ungrouped gs well.once
  have represents : ∀ n ∈ t.nodes, represent keyOf t.nodes mode levels n.id ∈
      representatives ⟨elkChildren keyOf t.nodes mode levels, gs⟩ (nodeToGroup keyOf t.nodes mode n.id) n.id := by
    intro n member
    rw [representatives_eq t.distinct apart ungrouped member]
    exact mem_singleton_self _
  refine ⟨apart, ?_, ?_⟩
  · intro e listed loopless differ
    obtain ⟨⟨n, member, source⟩, ⟨m, member', target⟩⟩ := t.joined e listed
    have one := well.covered e listed _ (source ▸ represents n member) _ (target ▸ represents m member') differ
    obtain ⟨x, here, same⟩ := (count_ends well.single).mp one
    obtain ⟨f, listed', origin, -⟩ := kept_origin kept here
    obtain ⟨⟨n', held, source'⟩, ⟨m', held', target'⟩⟩ := t.joined f listed'
    have hitSource : redirect keyOf t.nodes mode levels n'.id = represent keyOf t.nodes mode levels n.id := by
      rw [source', source]
      exact (congrArg ElkEdge.source origin).trans (congrArg Prod.fst same)
    have hitTarget : redirect keyOf t.nodes mode levels m'.id = represent keyOf t.nodes mode levels m.id := by
      rw [target', target]
      exact (congrArg ElkEdge.target origin).trans (congrArg Prod.snd same)
    have first := redirect_settles t.distinct apart member held hitSource
    have second := redirect_settles t.distinct apart member' held' hitTarget
    rw [source] at first
    rw [target] at second
    refine ⟨first, second, (present_iff kept listed loopless).mpr ⟨x, here, ?_⟩⟩
    rw [same, ElkEdge.ends, redirected, first, second]
  · intro e listed loopless same
    by_contra clear
    obtain ⟨x, here, ends⟩ := (present_iff kept listed loopless).mp clear
    obtain ⟨⟨n, member, source⟩, ⟨m, member', target⟩⟩ := t.joined e listed
    have known := well.known x here
    rw [show x.source = _ from congrArg Prod.fst ends, show x.target = _ from congrArg Prod.snd ends] at known
    have first := redirect_known t.distinct apart ungrouped member (by rw [source]; exact known.1)
    have second := redirect_known t.distinct apart ungrouped member' (by rw [target]; exact known.2)
    rw [source] at first
    rw [target] at second
    exact loopless (first.trans (same.trans second.symm))

theorem wellFormed_of_agreeing (ungrouped : mode = .none → ∀ n, keyOf n = none) (kept : Kept keyOf t mode levels gs)
    (agreeing : Agreeing keyOf t.nodes t.edges mode levels) :
    WellFormed t.nodes t.edges (nodeToGroup keyOf t.nodes mode) ⟨elkChildren keyOf t.nodes mode levels, gs⟩ := by
  have apart : Apart keyOf t.nodes mode := agreeing.apart
  have represents : ∀ n ∈ t.nodes, representatives ⟨elkChildren keyOf t.nodes mode levels, gs⟩
      (nodeToGroup keyOf t.nodes mode n.id) n.id = [represent keyOf t.nodes mode levels n.id] :=
    fun n member => representatives_eq t.distinct apart ungrouped member gs
  have known : ∀ n ∈ t.nodes, represent keyOf t.nodes mode levels n.id ∈
      ElkGraph.ids ⟨elkChildren keyOf t.nodes mode levels, gs⟩ := by
    intro n member
    apply id_of_represents (nodeToGroup keyOf t.nodes mode n.id) n.id
    rw [represents n member]
    exact mem_singleton_self _
  constructor
  · intro n member
    rw [represents n member]
    rfl
  · intro x here
    obtain ⟨e, listed, rfl, loopless⟩ := kept_origin kept here
    obtain ⟨⟨n, member, source⟩, ⟨m, member', target⟩⟩ := t.joined e listed
    have clear := (present_iff kept listed loopless).mpr ⟨_, here, rfl⟩
    have differ := fun same => clear (agreeing.within e listed loopless same)
    obtain ⟨first, second, -⟩ := agreeing.redirects e listed loopless differ
    have knownSource := known n member
    have knownTarget := known m member'
    rw [source, ← first] at knownSource
    rw [target, ← second] at knownTarget
    exact ⟨knownSource, knownTarget⟩
  · intro x here
    obtain ⟨e, listed, rfl, loopless⟩ := kept_origin kept here
    exact loopless
  · exact kept_single kept
  · intro e listed a isSource b isTarget differ
    obtain ⟨⟨n, member, source⟩, ⟨m, member', target⟩⟩ := t.joined e listed
    rw [← source, represents n member, mem_singleton, source] at isSource
    rw [← target, represents m member', mem_singleton, target] at isTarget
    subst isSource isTarget
    have loopless : redirect keyOf t.nodes mode levels e.source ≠ redirect keyOf t.nodes mode levels e.target := by
      intro same
      apply differ
      rw [← source, ← target] at same ⊢
      exact redirect_loop t.distinct apart member member' same
    obtain ⟨first, second, clear⟩ := agreeing.redirects e listed loopless differ
    obtain ⟨x, here, ends⟩ := (present_iff kept listed loopless).mp clear
    refine (count_ends (kept_single kept)).mpr ⟨x, here, ?_⟩
    rw [ends, ElkEdge.ends, redirected, first, second]

/-- The layout graph is well formed just where the redirected edges agree with what represents their ends. -/
theorem layout_wellFormed_iff (kindPriority : String → Nat) (t : Topology) (mode : GroupingMode) (levels : Levels) :
    WellFormed t.nodes t.edges (nodeToGroup (groupKeyOf kindPriority t.nodes t.edges mode) t.nodes mode)
        (buildHierarchicalElkGraph kindPriority t.nodes t.edges mode levels) ↔
      Agreeing (groupKeyOf kindPriority t.nodes t.edges mode) t.nodes t.edges mode levels := by
  have ungrouped : mode = .none → ∀ n, groupKeyOf kindPriority t.nodes t.edges mode n = none := by
    rintro rfl n
    rfl
  have kept : Kept (groupKeyOf kindPriority t.nodes t.edges mode) t mode levels
      (buildHierarchicalElkGraph kindPriority t.nodes t.edges mode levels).edges := pushEdge_firsts _
  exact ⟨agreeing_of_wellFormed ungrouped kept, wellFormed_of_agreeing ungrouped kept⟩

/-- Two nodes of a namespace that comes after the levels were set, and an edge between them. -/
def late : Topology where
  nodes := [⟨"deployment/new/web", "Deployment", "web", some "new", []⟩, ⟨"pod/new/web-0", "Pod", "web-0", some "new", []⟩]
  edges := [⟨"e", "deployment/new/web", "pod/new/web-0"⟩]
  distinct := by decide
  joined := by simp

def chips : Levels := ⟨[("group-namespace-old", .chip)], List.nodup_singleton _⟩

theorem late_dangles : ¬ WellFormed late.nodes late.edges
    (nodeToGroup (groupKeyOf (fun _ => 99) late.nodes late.edges .namespace_) late.nodes .namespace_)
    (buildHierarchicalElkGraph (fun _ => 99) late.nodes late.edges .namespace_ chips) := by
  intro well
  have edges : (buildHierarchicalElkGraph (fun _ => 99) late.nodes late.edges .namespace_ chips).edges =
      [⟨"e", "deployment/new/web", "pod/new/web-0"⟩] := by decide +kernel
  have ids : (buildHierarchicalElkGraph (fun _ => 99) late.nodes late.edges .namespace_ chips).ids = ["group-namespace-new"] := by
    decide +kernel
  have known := well.known ⟨"e", "deployment/new/web", "pod/new/web-0"⟩ (edges ▸ mem_singleton_self _)
  rw [ids] at known
  exact absurd known.1 (by decide)

end Conclusion

end LayoutGraph
