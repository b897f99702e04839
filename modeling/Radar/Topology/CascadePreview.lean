import Radar.Topology.OwnerEdge

/- GetCascadeDeletePreview of pkg/topology/relationships.go: what is deleted with a resource, found
   along the manages edges from its node. -/
namespace CascadePreview
open Topology NodeRef Neighborhood ResourceRelations LevelSearch OwnerEdge List

structure CascadeDeletePreview where
  root : ResourceRef
  dependents : List ResourceRef
  deriving DecidableEq

structure Cascade where
  visited : List String
  queue : List String
  dependents : List ResourceRef

variable {c : Cascade} {rounds : Nat}

/-- The adjacency list of the manages edges. -/
def manages (topo : Graph) (source : String) : List String :=
  (topo.edges.filter fun e => e.type == .manages && e.source == source).map Edge.target

section Model
variable (casing : Casing) (dp : Option Discovery) (topo : Graph)

/-- A target that cannot be parsed is visited and neither listed nor queued. -/
def visitTarget (c : Cascade) (targetID : String) : Cascade := if c.visited.contains targetID then c
  else match refOf casing dp targetID with
    | none => { c with visited := targetID :: c.visited }
    | some ref => ⟨targetID :: c.visited, c.queue ++ [targetID], c.dependents ++ [ref]⟩

def cascadeLoop : Nat → Cascade → Cascade
  | 0, c => c
  | rounds + 1, c => match c.queue with
    | [] => c
    | current :: rest =>
      cascadeLoop rounds ((manages topo current).foldl (visitTarget casing dp) { c with queue := rest })

def cascadeStart (rootID : String) : Cascade := ⟨[rootID], [rootID], []⟩

end Model

/-- A round for the root and one for every edge empty the queue. -/
def getCascadeDeletePreview (casing : Casing) (kind namespace_ name : String) (topo : Option Graph)
    (dp : Option Discovery) : CascadeDeletePreview :=
  match topo with
  | none => ⟨⟨kind, namespace_, name, ""⟩, []⟩
  | some topo =>
    { root := enrichRef casing dp ⟨kind, namespace_, name, ""⟩
      dependents := (cascadeLoop casing dp topo (topo.edges.length + 1)
        (cascadeStart (nodeID casing dp kind namespace_ name))).dependents }

section Search
variable (casing : Casing) (dp : Option Discovery)

/-- Nothing bounds the search; what cannot be parsed may not be found. -/
def parses (id : String) : Option Bool := some (refOf casing dp id).isSome

def unbounded (_ : Nat) : Bool := true

/-- The loop as a search: visited is what has been found or denied. -/
structure Mirrors (c : Cascade) (w : Search String) : Prop where
  nonempty : w.order ≠ []
  visited : ∀ x, x ∈ c.visited ↔ x ∈ w.order ∨ x ∈ w.denied
  queue : c.queue = w.next
  dependents : c.dependents = w.order.tail.filterMap (refOf casing dp)

variable {casing dp} {w : Search String}

theorem visit_mirrors (mirrors : Mirrors casing dp c w) (x : String) :
    Mirrors casing dp (visitTarget casing dp c x) (offer (parses casing dp) unbounded w x) := by
  unfold visitTarget offer parses unbounded
  by_cases found : x ∈ w.order
  · simpa [found, (mirrors.visited x).mpr (.inl found)] using mirrors
  · by_cases denied : x ∈ w.denied
    · simpa [found, denied, (mirrors.visited x).mpr (.inr denied)] using mirrors
    · have fresh : x ∉ c.visited := fun seen => ((mirrors.visited x).mp seen).elim found denied
      cases parsed : refOf casing dp x with
      | none =>
        simp only [contains_eq_mem, fresh, found, denied, decide_false, Bool.false_eq_true,
          if_false, Option.isSome_none]
        refine ⟨mirrors.nonempty, fun y => ?_, mirrors.queue, mirrors.dependents⟩
        rw [mem_cons, mem_cons, mirrors.visited y]
        tauto
      | some ref =>
        simp only [contains_eq_mem, fresh, found, denied, decide_false, Bool.false_eq_true,
          if_false, Option.isSome_some, if_true]
        refine ⟨by simp, fun y => ?_, by rw [mirrors.queue], ?_⟩
        · rw [mem_cons, mem_append, mem_singleton, mirrors.visited y]
          tauto
        · rw [tail_append_of_ne_nil mirrors.nonempty, filterMap_append, mirrors.dependents,
            filterMap_cons_some parsed, filterMap_nil]

theorem visits_mirror (targets : List String) (mirrors : Mirrors casing dp c w) :
    Mirrors casing dp (targets.foldl (visitTarget casing dp) c)
      (targets.foldl (offer (parses casing dp) unbounded) w) := by
  induction targets generalizing c w with
  | nil => exact mirrors
  | cons x rest ih => exact ih (visit_mirrors mirrors x)

theorem loop_mirrors (topo : Graph) (rounds : Nat) (mirrors : Mirrors casing dp c w) :
    Mirrors casing dp (cascadeLoop casing dp topo rounds c)
      (drain (parses casing dp) unbounded (manages topo) rounds w) := by
  induction rounds generalizing c w with
  | zero => exact mirrors
  | succ rounds ih =>
    simp only [cascadeLoop, drain, mirrors.queue]
    cases w.next with
    | nil => exact mirrors
    | cons current rest =>
      refine ih (visits_mirror (manages topo current) ?_)
      exact ⟨mirrors.nonempty, mirrors.visited, rfl, mirrors.dependents⟩

theorem start_mirrors (casing : Casing) (dp : Option Discovery) (rootID : String) :
    Mirrors casing dp (cascadeStart rootID) ⟨[rootID], [rootID], [], false⟩ :=
  ⟨by simp, fun x => by simp [cascadeStart], rfl, rfl⟩

end Search

/-- A manages edge to a node whose identifier can be parsed. -/
def Dependent (casing : Casing) (dp : Option Discovery) (t : Graph) (a b : String) : Prop :=
  Manages t a b ∧ ∃ ref, refOf casing dp b = some ref

section Closure
variable {casing : Casing} {dp : Option Discovery} {t : Graph} {rootID : String}

theorem step_dependent (a b : String) :
    Step (parses casing dp) (manages t) a b ↔ Dependent casing dp t a b := by
  simp only [Step, Dependent, manages, Manages, parses, mem_map, mem_filter,
    Bool.and_eq_true, beq_iff_eq, Option.some.injEq, Option.isSome_iff_exists]
  refine and_congr_left fun _ => ⟨?_, ?_⟩
  · rintro ⟨e, ⟨member, type_, source⟩, target⟩
    exact ⟨e, member, type_, source, target⟩
  · rintro ⟨e, member, type_, source, target⟩
    exact ⟨e, ⟨member, type_, source⟩, target⟩

theorem refs_parsed {ids : List String} (parsed : ∀ id ∈ ids, (refOf casing dp id).isSome = true) :
    ids.map (refOf casing dp) = (ids.filterMap (refOf casing dp)).map some := by
  induction ids with
  | nil => rfl
  | cons id rest ih =>
    obtain ⟨ref, same⟩ := Option.isSome_iff_exists.mp (parsed id mem_cons_self)
    rw [map_cons, filterMap_cons_some same, map_cons, same,
      ih fun id' member => parsed id' (mem_cons_of_mem id member)]

theorem targets_covered (a b : String) (member : b ∈ manages t a) : b ∈ t.edges.map Edge.target := by
  obtain ⟨e, kept, target⟩ := mem_map.mp member
  exact mem_map.mpr ⟨e, mem_of_mem_filter kept, target⟩

theorem loop_empties (casing : Casing) (dp : Option Discovery) (rootID : String)
    (enough : t.edges.length < rounds) :
    (cascadeLoop casing dp t rounds (cascadeStart rootID)).queue = [] := by
  rw [(loop_mirrors t rounds (start_mirrors casing dp rootID)).queue]
  exact drain_empty targets_covered (by rwa [length_map])

/-- The loop lists the nodes that can be reached, each under its reference. -/
theorem loop_closure (enough : t.edges.length < rounds) : ∃ ids : List String, ids.Nodup ∧
      (∀ id, id ∈ ids ↔ id ≠ rootID ∧ Relation.TransGen (Dependent casing dp t) rootID id) ∧
      ids.map (refOf casing dp) =
        (cascadeLoop casing dp t rounds (cascadeStart rootID)).dependents.map some := by
  have mirrors := loop_mirrors t rounds (start_mirrors casing dp rootID)
  have empty := loop_empties casing dp rootID enough
  rw [mirrors.queue] at empty
  obtain ⟨done, queued, _⟩ := drain_queued rounds
    (queued_start rootID : Queued (parses casing dp) unbounded (manages t) rootID [] _)
  generalize drain (parses casing dp) unbounded (manages t) rounds _ = w at mirrors empty queued
  have clear : w.truncated = false := by
    by_contra cut
    have none_left := (queued.offered.cut (by simpa using cut)).1
    cases none_left
  have reached := drained_reached queued clear empty
  obtain ⟨ids, order⟩ := head?_eq_some_iff.mp queued.offered.rooted
  have once : (rootID :: ids).Nodup := order ▸ queued.offered.distinct
  obtain ⟨apart, distinct⟩ := nodup_cons.mp once
  refine ⟨ids, distinct, fun id => ?_, ?_⟩
  · have paths : Relation.ReflTransGen (Step (parses casing dp) (manages t)) rootID id ↔
        Relation.ReflTransGen (Dependent casing dp t) rootID id := by
      rw [show Step (parses casing dp) (manages t) = Dependent casing dp t from
        funext fun a => funext fun b => propext (step_dependent a b)]
    have listed := (reached id).trans paths
    rw [order, mem_cons, Relation.reflTransGen_iff_eq_or_transGen] at listed
    constructor
    · intro member
      have other : id ≠ rootID := fun same => apart (same ▸ member)
      exact ⟨other, (listed.mp (.inr member)).resolve_left other⟩
    · rintro ⟨other, path⟩
      exact (listed.mpr (.inr path)).resolve_left other
  · rw [mirrors.dependents, order, tail_cons]
    refine refs_parsed fun id member => ?_
    have found : id ∈ w.order := order ▸ mem_cons_of_mem rootID member
    rcases queued.offered.found id found with same | ⟨_, allowed⟩
    · exact absurd (same ▸ member) apart
    · exact Option.some.inj allowed

end Closure

/-- The loop ends, and the preview has an entry for every other node that can be reached along manages
    edges whose targets can be parsed, the reference it is parsed to, and no further entry. -/
structure ListsDependents (casing : Casing) (dp : Option Discovery) (t : Graph) (rootID : String)
    (dependents : List ResourceRef) : Prop where
  ends : ∀ rounds > t.edges.length, (cascadeLoop casing dp t rounds (cascadeStart rootID)).queue = [] ∧
      (cascadeLoop casing dp t rounds (cascadeStart rootID)).dependents = dependents
  entries : ∃ ids : List String, ids.Nodup ∧
    (∀ id, id ∈ ids ↔ id ≠ rootID ∧ Relation.TransGen (Dependent casing dp t) rootID id) ∧
      ids.map (refOf casing dp) = dependents.map some

theorem loop_stays {casing : Casing} {dp : Option Discovery} {t : Graph}
    (empty : (cascadeLoop casing dp t rounds c).queue = []) (more : Nat) :
    cascadeLoop casing dp t (rounds + more) c = cascadeLoop casing dp t rounds c := by
  induction rounds generalizing c with
  | zero =>
    cases more with
    | zero => rfl
    | succ more =>
      simp only [cascadeLoop] at empty
      rw [Nat.zero_add]
      simp only [cascadeLoop, empty]
  | succ rounds ih =>
    rw [Nat.add_right_comm]
    simp only [cascadeLoop] at empty ⊢
    cases queue : c.queue with
    | nil => rfl
    | cons current rest =>
      rw [queue] at empty
      exact ih empty

theorem preview_lists_dependents (casing : Casing) (dp : Option Discovery) (t : Graph)
    (kind namespace_ name : String) :
    ListsDependents casing dp t (nodeID casing dp kind namespace_ name)
      (getCascadeDeletePreview casing kind namespace_ name (some t) dp).dependents where
  ends rounds more := by
    have empty := loop_empties casing dp (nodeID casing dp kind namespace_ name)
      (Nat.lt_succ_self t.edges.length)
    obtain ⟨extra, rfl⟩ := Nat.exists_eq_add_of_le (Nat.succ_le_of_lt more)
    have same := loop_stays empty extra
    refine ⟨loop_empties casing dp _ more, ?_⟩
    rw [same]
    rfl
  entries := loop_closure (Nat.lt_succ_self t.edges.length)

/-- As a list of references: none twice, none the root's, just those of the nodes reached. -/
structure ExactReferences (casing : Casing) (dp : Option Discovery) (t : Graph) (rootID : String)
    (preview : CascadeDeletePreview) : Prop where
  once : preview.dependents.Nodup
  rootless : preview.root ∉ preview.dependents
  exact_ : ∀ ref, ref ∈ preview.dependents ↔
    ∃ id, Relation.TransGen (Dependent casing dp t) rootID id ∧ refOf casing dp id = some ref

def owned (target : String) : Edge := ⟨"manages", "application/argocd/shop", target, .manages, "", "", ""⟩

/-- An application of two gateways of one name, one of either API group. -/
def twoGateways : Graph := ⟨[], [owned "gateway/shop/edge", owned "istiogateway/shop/edge"]⟩

/-- Both gateways are parsed to one reference, which is listed twice. -/
theorem gateway_listed_twice : ¬ ∀ (t : Graph) (kind namespace_ name : String),
    ExactReferences asciiCasing none t (nodeID asciiCasing none kind namespace_ name)
      (getCascadeDeletePreview asciiCasing kind namespace_ name (some t) none) := by
  intro claimed
  have listed := claimed twoGateways "Application" "argocd" "shop"
  exact absurd listed.once (by decide +kernel)

end CascadePreview
