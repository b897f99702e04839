import Mathlib.Data.String.Basic
import Radar.Base.Ascent
import Radar.Base.GoText
import Radar.Base.Selection

/- pkg/subject/subject.go: the subject a resource stands for, found by walking up its owners. -/
namespace OwnerWalk
open Ascent Function GoText Selection
variable {n : Nat}

/-- Groups, kinds and namespaces hold no bar, which separates them in a key. -/
structure Ref where
  group : String
  kind : String
  namespace_ : String
  name : String
  plain : '|' ∉ group.toList ∧ '|' ∉ kind.toList ∧ '|' ∉ namespace_.toList
  deriving DecidableEq

inductive Anchor where
  | ownerCollapsed
  | bare
  | node
  | operatorCR
  | self
  deriving DecidableEq

inductive Scope where
  | unknown
  | workload
  | service
  | ingress
  | pvc
  | node
  deriving DecidableEq

structure Subject where
  ref : Ref
  scope : Scope
  anchor : Anchor
  deriving DecidableEq

def scopeForKind (kind : String) : Scope :=
  if kind ∈ ["Pod", "Deployment", "StatefulSet", "DaemonSet", "ReplicaSet", "Job", "CronJob"] then
    .workload
  else if kind = "Service" then .service
  else if kind = "Ingress" then .ingress
  else if kind = "PersistentVolumeClaim" then .pvc
  else if kind = "Node" then .node
  else .unknown

/-- ParentOf: the next controller up the chain, none at the root. -/
abbrev OwnerResolver := Ref → Option Ref

/-- RootFor: the operator's resource above a workload, where it is a known one. -/
abbrev OperatorRootHook := Ref → Option Ref

def refKey (r : Ref) : String := r.group ++ "|" ++ r.kind ++ "|" ++ r.namespace_ ++ "|" ++ r.name

def minRef (first : Ref) (rest : List Ref) : Ref :=
  select (fun r best => decide (refKey r < refKey best)) first rest

def maxOwnerWalkDepth : Nat := 16

/-- The walk with so many steps left. The keys it has visited are those of its chain. -/
def walkOwners (owners : OwnerResolver) : Nat → (first : Ref) → (rest : List Ref) → (cur : Ref) →
    Anchor → Ref × Anchor
  | 0, _, _, cur, anchor => (cur, anchor)
  | left + 1, first, rest, cur, anchor =>
    match owners cur with
    | none => (cur, anchor)
    | some parent =>
      if parent.kind = "Node" then (cur, .node)
      else if ((first :: rest).map refKey).contains (refKey parent) then
        (minRef first rest, .ownerCollapsed)
      else walkOwners owners left first (rest ++ [parent]) parent .ownerCollapsed

def ownerWalk (owners : Option OwnerResolver) (start : Ref) : Ref × Anchor := match owners with
  | none => (start, .self)
  | some owners => walkOwners owners maxOwnerWalkDepth start [] start .self

def resolveSubject (start : Ref) (owners : Option OwnerResolver) (ops : Option OperatorRootHook) :
    Subject :=
  let walked := ownerWalk owners start
  let anchor := if walked.2 = .self ∧ start.kind = "Pod" then .bare else walked.2
  match (if anchor = .node then none else ops.bind fun ops => ops walked.1) with
  | some root => ⟨root, scopeForKind root.kind, .operatorCR⟩
  | none => ⟨walked.1, scopeForKind walked.1.kind, anchor⟩

section Keys

theorem key_chars (r : Ref) : (refKey r).toList =
    r.group.toList ++ '|' :: (r.kind.toList ++ '|' :: (r.namespace_.toList ++ '|' :: r.name.toList)) := by
  simp [refKey, String.toList_append]

theorem refKey_inj {a b : Ref} (same : refKey a = refKey b) : a = b := by
  have chars : (refKey a).toList = (refKey b).toList := congrArg String.toList same
  rw [key_chars, key_chars] at chars
  obtain ⟨group, behind⟩ := sep_inj a.plain.1 b.plain.1 chars
  obtain ⟨kind, behind⟩ := sep_inj a.plain.2.1 b.plain.2.1 behind
  obtain ⟨ns, name⟩ := sep_inj a.plain.2.2 b.plain.2.2 behind
  cases a
  cases b
  rw [String.toList_inj] at group kind ns name
  cases group
  cases kind
  cases ns
  cases name
  rfl

theorem key_ranks : Ranks (fun r best => decide (refKey r < refKey best)) refKey :=
  fun _ _ => decide_eq_true_iff

/-- The smallest key of a chain does not depend on where in it one starts. -/
theorem minRef_congr {first first' : Ref} {rest rest' : List Ref}
    (same : ∀ r, r ∈ first :: rest ↔ r ∈ first' :: rest') : minRef first rest = minRef first' rest' := by
  have inside : minRef first rest ∈ first' :: rest' := (same _).mp (select_mem _ first rest)
  have inside' : minRef first' rest' ∈ first :: rest := (same _).mpr (select_mem _ first' rest')
  have below := select_le key_ranks first rest inside'
  have below' := select_le key_ranks first' rest' inside
  exact refKey_inj (le_antisymm below below')

end Keys

section Walk
variable {owners : OwnerResolver}

/-- The owners the walk goes up to. A Node ends it. -/
def up (owners : OwnerResolver) (r : Ref) : Option Ref :=
  (owners r).filter fun parent => parent.kind ≠ "Node"

/-- A Node ends the walk here. -/
def NodeOwned (owners : OwnerResolver) (r : Ref) : Prop :=
  ∃ parent, owners r = some parent ∧ parent.kind = "Node"

theorem up_some {r parent : Ref} :
    up owners r = some parent ↔ owners r = some parent ∧ parent.kind ≠ "Node" := by
  rw [up, Option.filter_eq_some_iff, decide_eq_true_iff]

/-- The three ways a walk goes on: no owner, a Node, or a resource to go up to. -/
theorem owner_cases (owners : OwnerResolver) (r : Ref) :
    owners r = none ∨ NodeOwned owners r ∨ ∃ parent, up owners r = some parent := by
  cases found : owners r with
  | none => exact Or.inl rfl
  | some parent =>
    by_cases node : parent.kind = "Node"
    · exact Or.inr (Or.inl ⟨parent, found, node⟩)
    · exact Or.inr (Or.inr ⟨parent, up_some.mpr ⟨found, node⟩⟩)

theorem up_none {r : Ref} : up owners r = none ↔ owners r = none ∨ NodeOwned owners r := by
  constructor
  · intro top
    rcases owner_cases owners r with none | node | ⟨parent, more⟩
    · exact Or.inl none
    · exact Or.inr node
    · rw [top] at more
      cases more
  · rintro (none | ⟨parent, found, node⟩)
    · rw [up, none]
      rfl
    · rw [up, found, Option.filter_some, if_neg (by simp [node])]

/-- A walk that has passed the points of its chain and stands at the last of them. -/
structure At (owners : OwnerResolver) (r first : Ref) (rest : List Ref) (cur : Ref) : Prop where
  trail : Trail (up owners) r (first :: rest)
  here : hop (up owners) rest.length r = some cur

variable {r first cur parent : Ref} {rest : List Ref} {anchor : Anchor}

theorem at_start (r : Ref) : At owners r r [] r := ⟨trail_start r, rfl⟩

theorem hop_next (held : At owners r first rest cur) (more : up owners cur = some parent) :
    hop (up owners) (rest.length + 1) r = some parent := by
  rw [hop_succ, held.here]
  exact more

theorem at_next (held : At owners r first rest cur) (more : up owners cur = some parent) :
    At owners r first (rest ++ [parent]) parent := by
  have next := hop_next held more
  refine ⟨trail_step held.trail next, ?_⟩
  rw [List.length_append, List.length_singleton]
  exact next

theorem walk_none (left : Nat) (top : owners cur = none) :
    walkOwners owners left first rest cur anchor = (cur, anchor) := by
  cases left with
  | zero => rfl
  | succ left => rw [walkOwners, top]

theorem walk_node (left : Nat) (node : NodeOwned owners cur) :
    walkOwners owners (left + 1) first rest cur anchor = (cur, .node) := by
  obtain ⟨parent, found, kind⟩ := node
  rw [walkOwners, found]
  exact if_pos kind

theorem walk_again (left : Nat) (more : up owners cur = some parent)
    (seen : parent ∈ first :: rest) :
    walkOwners owners (left + 1) first rest cur anchor = (minRef first rest, .ownerCollapsed) := by
  obtain ⟨found, kind⟩ := up_some.mp more
  have again : ((first :: rest).map refKey).contains (refKey parent) = true :=
    List.contains_iff_mem.mpr (List.mem_map_of_mem seen)
  simp only [walkOwners, found, kind, again, if_true, if_false]

theorem walk_on (left : Nat) (more : up owners cur = some parent)
    (fresh : parent ∉ first :: rest) :
    walkOwners owners (left + 1) first rest cur anchor =
      walkOwners owners left first (rest ++ [parent]) parent .ownerCollapsed := by
  obtain ⟨found, kind⟩ := up_some.mp more
  have new : ((first :: rest).map refKey).contains (refKey parent) = false := by
    rw [← Bool.not_eq_true, List.contains_iff_mem, List.mem_map]
    rintro ⟨old, member, key⟩
    exact fresh (refKey_inj key ▸ member)
  simp only [walkOwners, found, kind, new, if_false, Bool.false_eq_true]

/-- What is next on a path that passes each point once is no point of its trail. -/
theorem next_fresh (held : At owners r first rest cur) (more : up owners cur = some parent)
    (apart : ∀ i < rest.length + 1, hop (up owners) i r ≠ hop (up owners) (rest.length + 1) r) :
    parent ∉ first :: rest := by
  intro seen
  obtain ⟨i, less, there⟩ := (mem_trail held.trail).mp seen
  apply apart i less
  rw [there, hop_next held more]

/-- A path that ends is walked to its end, where the cap leaves the steps for it. -/
theorem walk_ends {y : Ref} (ends : Ends (up owners) r n y) (left : Nat)
    (held : At owners r first rest cur) (begun : rest.length ≤ n) (start : anchor ≠ .node)
    (enough : n < rest.length + left ∨ owners y = none ∧ n = rest.length + left) :
    ∃ last, walkOwners owners left first rest cur anchor = (y, last) ∧
      (last = .node ↔ NodeOwned owners y) := by
  induction left generalizing rest cur anchor with
  | zero =>
    obtain ⟨none, level⟩ := enough.resolve_left (by omega)
    have here := held.here
    rw [← Nat.add_zero rest.length, ← level, ends.1] at here
    cases here
    refine ⟨anchor, rfl, ?_⟩
    simp [start, NodeOwned, none]
  | succ left ih =>
    rcases owner_cases owners cur with none | node | ⟨parent, more⟩
    · obtain ⟨-, rfl⟩ := ends_unique ⟨held.here, up_none.mpr (Or.inl none)⟩ ends
      refine ⟨anchor, walk_none (left + 1) none, ?_⟩
      simp [start, NodeOwned, none]
    · obtain ⟨-, rfl⟩ := ends_unique ⟨held.here, up_none.mpr (Or.inr node)⟩ ends
      exact ⟨.node, walk_node left node, by simp [node]⟩
    · have below := ends_after ends (hop_next held more)
      have fresh := next_fresh held more fun i less => ends_apart ends less below
      rw [walk_on left more fresh]
      have length : (rest ++ [parent]).length = rest.length + 1 := by simp
      apply ih (at_next held more) (by omega) (by decide)
      exact enough.imp (fun less => by omega) fun level => ⟨level.1, by omega⟩

/-- On a closed path the walk stops once it has passed all of it, at its smallest key. -/
theorem walk_returns (returns : Returns (up owners) r n) (left : Nat) (held : At owners r first rest cur)
    (begun : rest.length < minimalPeriod (rise (up owners)) (some r))
    (enough : minimalPeriod (rise (up owners)) (some r) ≤ rest.length + left) :
    ∃ round, Trail (up owners) r (first :: round) ∧
      round.length + 1 = minimalPeriod (rise (up owners)) (some r) ∧
      walkOwners owners left first rest cur anchor = (minRef first round, .ownerCollapsed) := by
  induction left generalizing rest cur anchor with
  | zero => omega
  | succ left ih =>
    have alive := returns_alive returns (rest.length + 1)
    rw [hop_succ, held.here, Option.bind_some] at alive
    obtain ⟨parent, more⟩ := Option.ne_none_iff_exists'.mp alive
    by_cases last : rest.length + 1 = minimalPeriod (rise (up owners)) (some r)
    · have around : hop (up owners) (rest.length + 1) r = some r := by
        rw [last]
        exact iterate_minimalPeriod
      have back : parent = r := by
        rw [hop_succ, held.here, Option.bind_some, more] at around
        exact Option.some.inj around
      have seen : parent ∈ first :: rest :=
        (mem_trail held.trail).mpr ⟨0, Nat.succ_pos _, congrArg some back.symm⟩
      exact ⟨rest, held.trail, last, walk_again left more seen⟩
    · have fresh := next_fresh held more fun i less => returns_apart less (by omega)
      rw [walk_on left more fresh]
      have length : (rest ++ [parent]).length = rest.length + 1 := by simp
      exact ih (at_next held more) (by omega) (by omega)

/-- A path of distinct points that is longer than the cap is walked as far as the cap lets it. -/
theorem walk_capped {top : Ref} (left : Nat) (held : At owners r first rest cur)
    (start : left = 0 → anchor = .ownerCollapsed)
    (there : hop (up owners) (rest.length + left) r = some top)
    (apart : ∀ i j, i < j → j ≤ rest.length + left → hop (up owners) i r ≠ hop (up owners) j r) :
    walkOwners owners left first rest cur anchor = (top, .ownerCollapsed) := by
  induction left generalizing rest cur anchor with
  | zero =>
    have here := held.here
    rw [← Nat.add_zero rest.length, there] at here
    cases here
    rw [walkOwners, start rfl]
  | succ left ih =>
    obtain ⟨next, found⟩ := hop_some_before there (show rest.length + 1 ≤ rest.length + (left + 1) by omega)
    have more : up owners cur = some next := by
      rwa [hop_succ, held.here, Option.bind_some] at found
    have fresh := next_fresh held more fun i less => apart i _ less (by omega)
    rw [walk_on left more fresh]
    have length : (rest ++ [next]).length = rest.length + 1 := by simp
    apply ih (at_next held more) (fun _ => rfl)
    · rw [length, Nat.add_right_comm, Nat.add_assoc]
      exact there
    · intro i j order inside
      exact apart i j order (by omega)

end Walk

section Resolved
variable {owners : OwnerResolver} {ops : Option OperatorRootHook} {r p : Ref}

/-- The operator's resource above a workload, or else the workload. -/
def aboveOf (ops : Option OperatorRootHook) (workload : Ref) : Ref :=
  (ops.bind fun ops => ops workload).getD workload

theorem resolve_ref (start : Ref) (owners : Option OwnerResolver) (ops : Option OperatorRootHook) :
    (resolveSubject start owners ops).ref =
      if (ownerWalk owners start).2 = .node then (ownerWalk owners start).1
      else aboveOf ops (ownerWalk owners start).1 := by
  have stays : (if (ownerWalk owners start).2 = .self ∧ start.kind = "Pod" then Anchor.bare
      else (ownerWalk owners start).2) = .node ↔ (ownerWalk owners start).2 = .node := by
    split
    next bare => simp [bare.1]
    next => rfl
  unfold resolveSubject aboveOf
  simp only [stays]
  by_cases node : (ownerWalk owners start).2 = .node
  · simp only [node, if_true]
  · simp only [node, if_false]
    cases ops.bind fun ops => ops (ownerWalk owners start).1 <;> rfl

/-- Walks that stop at one resource, a Node ending both or neither, have one root. -/
theorem same_root {stopped : Ref} {last last' : Anchor}
    (walk : ownerWalk (some owners) r = (stopped, last))
    (walk' : ownerWalk (some owners) p = (stopped, last')) (both : last = .node ↔ last' = .node) :
    (resolveSubject r (some owners) ops).ref = (resolveSubject p (some owners) ops).ref := by
  rw [resolve_ref, resolve_ref, walk, walk']
  simp only [both]

/-- The walk comes to its end within the cap, or back to where it began. -/
def Settles (owners : OwnerResolver) (r : Ref) : Prop :=
  (∃ n top, n ≤ maxOwnerWalkDepth ∧ Ends (up owners) r n top ∧
    (n = maxOwnerWalkDepth → owners top = none)) ∨
  ∃ n ≤ maxOwnerWalkDepth, Returns (up owners) r n

theorem ends_root {top : Ref} (ends : Ends (up owners) r n top)
    (within : n < maxOwnerWalkDepth ∨ owners top = none ∧ n = maxOwnerWalkDepth) :
    ∃ last, ownerWalk (some owners) r = (top, last) ∧ (last = .node ↔ NodeOwned owners top) := by
  apply walk_ends ends maxOwnerWalkDepth (at_start r) (Nat.zero_le n) (by decide)
  rw [List.length_nil, Nat.zero_add]
  exact within

theorem returns_root (returns : Returns (up owners) r n) (within : n ≤ maxOwnerWalkDepth) :
    ∃ round, Trail (up owners) r (r :: round) ∧
      round.length + 1 = minimalPeriod (rise (up owners)) (some r) ∧
      ownerWalk (some owners) r = (minRef r round, .ownerCollapsed) := by
  apply walk_returns returns maxOwnerWalkDepth (at_start r)
  · exact minimalPeriod_pos_of_mem_periodicPts (returns_periodic returns)
  · rw [List.length_nil, Nat.zero_add]
    exact (IsPeriodicPt.minimalPeriod_le returns.1 returns.2).trans within

theorem returns_next (returns : Returns (up owners) r n) (step : up owners r = some p) :
    Returns (up owners) p n := by
  obtain ⟨positive, around⟩ := returns
  refine ⟨positive, ?_⟩
  rw [← hop_up n step, hop_succ, around]
  exact step

/-- A resource whose walk settles has the root of its parent. -/
theorem settled_root (step : up owners r = some p) (settles : Settles owners r) :
    (resolveSubject r (some owners) ops).ref = (resolveSubject p (some owners) ops).ref := by
  rcases settles with ⟨n, top, within, ends, free⟩ | ⟨n, within, returns⟩
  · cases n with
    | zero =>
      have here : r = top := Option.some.inj ends.1
      have gone := ends.2
      rw [← here, step] at gone
      cases gone
    | succ n =>
      have ends' : Ends (up owners) p n top := ⟨(hop_up n step).symm.trans ends.1, ends.2⟩
      have room : n + 1 < maxOwnerWalkDepth ∨ owners top = none ∧ n + 1 = maxOwnerWalkDepth := by
        rcases Nat.lt_or_eq_of_le within with less | level
        · exact Or.inl less
        · exact Or.inr ⟨free level, level⟩
      obtain ⟨last, walk, node⟩ := ends_root ends room
      obtain ⟨last', walk', node'⟩ := ends_root ends' (Or.inl within)
      exact same_root walk walk' (node.trans node'.symm)
  · obtain ⟨round, trail, length, walk⟩ := returns_root returns within
    obtain ⟨round', trail', length', walk'⟩ := returns_root (returns_next returns step) within
    obtain ⟨_, points⟩ := orbit_shift returns step
    have same : minRef r round = minRef p round' := by
      apply minRef_congr
      intro z
      rw [mem_trail trail, mem_trail trail', List.length_cons, List.length_cons, length, length']
      exact (points z).symm
    rw [same] at walk
    exact same_root walk walk' Iff.rfl

/-- The first sixteen owners of a resource are distinct and none of them is the last. -/
def Deep (owners : OwnerResolver) (r top : Ref) : Prop := hop (up owners) maxOwnerWalkDepth r = some top ∧
    ∀ i j, i < j → j ≤ maxOwnerWalkDepth → hop (up owners) i r ≠ hop (up owners) j r

/-- A resource stands for what its parent stands for where the walk settles. A Node is no parent in
   this sense, and a walk of more steps than the cap stops at the sixteenth owner. -/
theorem subject_resolved (owners : OwnerResolver) (ops : Option OperatorRootHook) :
    (∀ r p, owners r = some p → p.kind ≠ "Node" → Settles owners r →
      (resolveSubject r (some owners) ops).ref = (resolveSubject p (some owners) ops).ref) ∧
    (∀ r p, owners r = some p → p.kind = "Node" →
      resolveSubject r (some owners) ops = ⟨r, scopeForKind r.kind, .node⟩) ∧
    ∀ r top, Deep owners r top → (resolveSubject r (some owners) ops).ref = aboveOf ops top := by
  refine ⟨?_, ?_, ?_⟩
  · intro r p found kind settles
    exact settled_root (up_some.mpr ⟨found, kind⟩) settles
  · intro r p found kind
    have walk : ownerWalk (some owners) r = (r, .node) := walk_node 15 ⟨p, found, kind⟩
    simp [resolveSubject, walk]
  · intro r top deep
    have walk : ownerWalk (some owners) r = (top, .ownerCollapsed) := by
      apply walk_capped maxOwnerWalkDepth (at_start r) (by decide)
      · rw [List.length_nil, Nat.zero_add]
        exact deep.1
      · intro i j order inside
        rw [List.length_nil, Nat.zero_add] at inside
        exact deep.2 i j order inside
    rw [resolve_ref, walk]
    rfl

end Resolved

section Inputs

def named (group kind name : String)
    (plain : '|' ∉ group.toList ∧ '|' ∉ kind.toList ∧ '|' ∉ "shop".toList) : Ref :=
  ⟨group, kind, "shop", name, plain⟩

def webPod : Ref := named "" "Pod" "web-7d8-x" (by decide)
def webSet : Ref := named "apps" "ReplicaSet" "web-7d8" (by decide)
def web : Ref := named "apps" "Deployment" "web" (by decide)
def workerNode : Ref := named "" "Node" "worker" (by decide)

/-- A pod, its ReplicaSet and its Deployment. -/
def webOwners : OwnerResolver := fun r =>
  if r = webPod then some webSet else if r = webSet then some web else none

/-- A static pod, which its Node owns. -/
def mirrorOwners : OwnerResolver := fun r => if r = webPod then some workerNode else none

/-- Every resource is owned by the one whose name is a letter longer. -/
def endlessOwners : OwnerResolver := fun r => some { r with name := r.name ++ "n" }

theorem web_pod_settled : (resolveSubject webPod (some webOwners) none).ref =
      (resolveSubject webSet (some webOwners) none).ref := by
  refine (subject_resolved webOwners none).1 webPod webSet (by decide) (by decide) ?_
  exact Or.inl ⟨2, web, by decide, ⟨by decide, by decide⟩, by decide⟩

theorem parents_split : (mirrorOwners webPod = some workerNode ∧
      (resolveSubject webPod (some mirrorOwners) none).ref ≠
        (resolveSubject workerNode (some mirrorOwners) none).ref) ∧
    endlessOwners web = some { web with name := "webn" } ∧
      (resolveSubject web (some endlessOwners) none).ref ≠
        (resolveSubject { web with name := "webn" } (some endlessOwners) none).ref := by
  decide

end Inputs

end OwnerWalk
