import Radar.Topology.IndexAgreement

/- pkg/topology: the owner shown for a resource and the first step of the walk to its topmost owner. One
   is the last manager whose identifier can be parsed, the other the first manager. -/
namespace OwnerEdge
open Topology NodeRef Neighborhood ResourceRelations IndexAgreement List

/-- The sources of the manages edges to a node, in the order of the edges. -/
def managers (t : Graph) (id : String) : List String :=
  (t.edges.filter fun e => e.type == .manages && e.target == id).map Edge.source

def Manages (t : Graph) (a b : String) : Prop :=
  ∃ e ∈ t.edges, e.type = .manages ∧ e.source = a ∧ e.target = b

theorem manager_iff {t : Graph} {id m : String} : m ∈ managers t id ↔ Manages t m id := by
  simp only [managers, Manages, mem_map, mem_filter, Bool.and_eq_true, beq_iff_eq]
  constructor
  · rintro ⟨e, ⟨member, type_, target⟩, source⟩
    exact ⟨e, member, type_, source, target⟩
  · rintro ⟨e, member, type_, source, target⟩
    exact ⟨e, ⟨member, type_, target⟩, source⟩

section Owner
variable (casing : Casing) (dp : Option Discovery)

theorem outgoing_owner (kindLower : String) (rel : Relationships) (edge : Edge) :
    (addOutgoing casing dp kindLower rel edge).owner = rel.owner := by
  unfold addOutgoing
  cases refOf casing dp edge.target with
  | none => rfl
  | some ref =>
    cases edge.type with
    | routesTo =>
      simp only [routesToTarget]
      split
      · split <;> rfl
      · split <;> rfl
    | manages | exposes | uses | protects | configures => rfl

theorem outgoings_owner (kindLower : String) (edges : List Edge) (rel : Relationships) :
    (edges.foldl (addOutgoing casing dp kindLower) rel).owner = rel.owner := by
  induction edges generalizing rel with
  | nil => rfl
  | cons edge rest ih => rw [foldl_cons, ih, outgoing_owner]

theorem incoming_owner (rel : Relationships) (edge : Edge) : (addIncoming casing dp rel edge).owner =
      if edge.type = .manages then (refOf casing dp edge.source <|> rel.owner) else rel.owner := by
  unfold addIncoming
  cases refOf casing dp edge.source with
  | none => simp
  | some ref =>
    cases edge.type with
    | routesTo =>
      simp only [routesFromSource]
      split
      · rfl
      · split
        · rfl
        · split <;> rfl
    | protects =>
      simp only [protectsFromSource]
      split
      · rfl
      · split <;> rfl
    | manages | exposes | uses | configures => rfl

/-- The last manager that can be parsed is left as the owner. -/
theorem incomings_owner (edges : List Edge) (rel : Relationships) :
    (edges.foldl (addIncoming casing dp) rel).owner =
      ((((edges.filter fun e => e.type == .manages).map Edge.source).filterMap
        (refOf casing dp)).getLast? <|> rel.owner) := by
  induction edges generalizing rel with
  | nil => simp
  | cons edge rest ih =>
    rw [foldl_cons, ih, incoming_owner]
    by_cases type_ : edge.type = .manages
    · cases parsed : refOf casing dp edge.source with
      | none => simp [type_, parsed]
      | some ref =>
        simp only [type_, if_true, filter_cons, beq_self_eq_true, map_cons,
          filterMap_cons_some parsed, getLast?_cons]
        cases (((rest.filter fun e => e.type == .manages).map Edge.source).filterMap
          (refOf casing dp)).getLast? <;> rfl
    · simp [type_]

theorem edge_owner (t : Graph) (indexed : Bool) (kind namespace_ name : String) :
    (edgeRelationships casing dp t (indexFor indexed t) kind namespace_ name).owner =
      ((managers t (nodeID casing dp kind namespace_ name)).filterMap
        (refOf casing dp)).getLast? := by
  have edges : edgesForNode t (indexFor indexed t) (nodeID casing dp kind namespace_ name) =
      edgesForNode t none (nodeID casing dp kind namespace_ name) := by
    cases indexed with
    | false => rfl
    | true => exact edges_agree (node_id_named kind namespace_ name)
  have grown : ∀ rel, (withGrandchildren casing dp t (indexFor indexed t) (casing.toLower kind)
      rel).owner = rel.owner := by
    intro rel
    unfold withGrandchildren
    split <;> rfl
  have bridged : ∀ rel, (withDeployment casing dp t (indexFor indexed t) (casing.toLower kind)
      rel).owner = rel.owner := by
    intro rel
    unfold withDeployment
    split
    · split
      · rfl
      · split <;> rfl
    · rfl
  have unchanged : ∀ o : Option ResourceRef, (o <|> none) = o := by
    intro o
    cases o <;> rfl
  simp only [edgeRelationships, bridged, grown]
  rw [edges, incomings_owner, outgoings_owner, unchanged]
  simp only [edgesForNode, filter_filter, managers]

theorem storage_owner (provider : Option ResourceProvider) (kindLower namespace_ name : String)
    (rel : Relationships) :
    (addStorage casing dp provider kindLower namespace_ name rel).owner = rel.owner := by
  unfold addStorage
  cases provider with
  | none => rfl
  | some provider =>
    simp only [volumeOf, claimAndClass, volumesOfClass, podsOnNode]
    split
    · split <;> rfl
    · split
      · split <;> rfl
      · split
        · rfl
        · split <;> rfl

theorem object_owner (kindLower namespace_ : String) (queried : Option Queried) (rel : Relationships) :
    (addObject casing dp kindLower namespace_ queried rel).owner = rel.owner := by
  unfold addObject
  split
  · rfl
  · split <;> rfl
  · rfl

theorem nil_owner (rel : Relationships) : (nilIfEmpty rel).bind Relationships.owner = rel.owner := by
  unfold nilIfEmpty
  split
  next empty => rw [empty]; rfl
  next => rfl

/-- The owner GetRelationships reports, none when it reports nothing at all. -/
def shownOwner (t : Graph) (indexed : Bool) (obj : Option Queried)
    (provider : Option ResourceProvider) (kind namespace_ name : String) : Option ResourceRef :=
  (getRelationshipsWithObject casing kind namespace_ name obj (some t) provider dp
    (indexFor indexed t)).bind Relationships.owner

theorem shown_owner (t : Graph) (indexed : Bool) (obj : Option Queried)
    (provider : Option ResourceProvider) (kind namespace_ name : String) :
    shownOwner casing dp t indexed obj provider kind namespace_ name =
      ((managers t (nodeID casing dp kind namespace_ name)).filterMap
        (refOf casing dp)).getLast? := by
  simp only [shownOwner, getRelationshipsWithObject, nil_owner, object_owner, storage_owner, edge_owner]

end Owner

section Climb
variable {casing : Casing} {dp : Option Discovery} {t : Graph} {indexed : Bool}
  {kind namespace_ name : String}

theorem empty_unparsed : refOf casing dp "" = none := rfl

theorem owner_first {target : String} (named : target ≠ "") :
    ownerOf t (indexFor indexed t) target = (managers t target).head?.getD "" := by
  have same : ownerOf t (indexFor indexed t) target = ownerOf t none target := by
    cases indexed with
    | false => rfl
    | true => exact owner_agrees named
  rw [same, managers, head?_map, head?_filter]
  rfl

/-- Every round goes on to the first manager of the node it is at. -/
theorem hop_first {w w' : OwnerWalk} (named : w.cur ≠ "") :
    ownerHop casing dp t (indexFor indexed t) w = some w' ↔
      ∃ first ref, (managers t w.cur).head? = some first ∧ first ∉ w.visited ∧
        refOf casing dp first = some ref ∧ w' = ⟨first, first :: w.visited, some ref⟩ := by
  rw [owner_hop_some, owner_first named]
  cases head : (managers t w.cur).head? with
  | none => simp
  | some first =>
    simp only [Option.getD_some, Option.some.injEq]
    constructor
    · rintro ⟨ref, _, fresh, parsed, step⟩
      exact ⟨first, ref, rfl, fresh, parsed, step⟩
    · rintro ⟨_, ref, rfl, fresh, parsed, step⟩
      refine ⟨ref, ?_, fresh, parsed, step⟩
      rintro rfl
      rw [empty_unparsed] at parsed
      cases parsed

/-- What holds at the head of the loop: the walk has come up from the start by manages edges. -/
structure Climbed (casing : Casing) (dp : Option Discovery) (t : Graph) (start : String)
    (w : OwnerWalk) : Prop where
  named : w.cur ≠ ""
  started : start ∈ w.visited
  once : w.visited.Nodup
  inside : w.visited ⊆ start :: t.edges.map Edge.source
  here : w.cur = start ∧ w.topRef = none ∨
    w.cur ≠ start ∧ refOf casing dp w.cur = w.topRef ∧ Relation.TransGen (Manages t) w.cur start

theorem start_climbed (casing : Casing) (dp : Option Discovery) (t : Graph)
    (kind namespace_ name : String) : Climbed casing dp t (nodeID casing dp kind namespace_ name)
      (walkStart casing dp kind namespace_ name) where
  named := node_id_named kind namespace_ name
  started := mem_cons_self
  once := nodup_singleton _
  inside := cons_subset_cons _ (nil_subset _)
  here := .inl ⟨rfl, rfl⟩

theorem hop_climbed {start : String} {w w' : OwnerWalk} (climbed : Climbed casing dp t start w)
    (hop : ownerHop casing dp t (indexFor indexed t) w = some w') :
    Climbed casing dp t start w' ∧ w'.visited.length = w.visited.length + 1 := by
  obtain ⟨first, ref, head, fresh, parsed, rfl⟩ := (hop_first climbed.named).mp hop
  have step : Manages t first w.cur := manager_iff.mp (mem_of_mem_head? head)
  refine ⟨⟨?_, mem_cons_of_mem first climbed.started,
    nodup_cons.mpr ⟨fresh, climbed.once⟩, ?_, .inr ⟨?_, parsed, ?_⟩⟩, rfl⟩
  · rintro rfl
    rw [empty_unparsed] at parsed
    cases parsed
  · obtain ⟨e, member, _, source, _⟩ := step
    refine cons_subset.mpr ⟨?_, climbed.inside⟩
    exact mem_cons_of_mem start (source ▸ mem_map_of_mem member)
  · rintro rfl
    exact fresh climbed.started
  · rcases climbed.here with ⟨at_, _⟩ | ⟨_, _, path⟩
    · exact .single (at_ ▸ step)
    · exact .head step path

theorem loop_climbed (indexed : Bool) {start : String} (rounds : Nat) {w : OwnerWalk}
    (climbed : Climbed casing dp t start w) :
    Climbed casing dp t start (walkLoop casing dp t (indexFor indexed t) rounds w) ∧
      (ownerHop casing dp t (indexFor indexed t)
          (walkLoop casing dp t (indexFor indexed t) rounds w) = none ∨
        (walkLoop casing dp t (indexFor indexed t) rounds w).visited.length =
          w.visited.length + rounds) := by
  induction rounds generalizing w with
  | zero => exact ⟨climbed, .inr rfl⟩
  | succ rounds ih =>
    simp only [walkLoop]
    cases hop : ownerHop casing dp t (indexFor indexed t) w with
    | none => exact ⟨climbed, .inl hop⟩
    | some w' =>
      obtain ⟨next, longer⟩ := hop_climbed climbed hop
      obtain ⟨later, ended⟩ := ih next
      refine ⟨later, ended.imp_right fun length => ?_⟩
      rw [length, longer]
      omega

/-- The loop breaks on every graph, after as many rounds as there are edges at the latest. -/
theorem walk_ends {rounds : Nat} (enough : t.edges.length ≤ rounds) :
    ownerHop casing dp t (indexFor indexed t) (walkLoop casing dp t (indexFor indexed t) rounds
      (walkStart casing dp kind namespace_ name)) = none := by
  obtain ⟨climbed, ended⟩ := loop_climbed indexed rounds
    (start_climbed casing dp t kind namespace_ name)
  rcases ended with done | length
  · exact done
  · cases hop : ownerHop casing dp t (indexFor indexed t) (walkLoop casing dp t
      (indexFor indexed t) rounds (walkStart casing dp kind namespace_ name)) with
    | none => rfl
    | some w' =>
      obtain ⟨next, longer⟩ := hop_climbed climbed hop
      have short := (next.once.subperm next.inside).length_le
      rw [longer, length, length_cons, length_map] at short
      have one : (walkStart casing dp kind namespace_ name).visited.length = 1 := rfl
      omega

theorem walk_ancestor {ref : ResourceRef}
    (found : walkTopmostOwner casing dp t (indexFor indexed t) kind namespace_ name = some ref) :
    ∃ id, id ≠ nodeID casing dp kind namespace_ name ∧ refOf casing dp id = some ref ∧
      Relation.TransGen (Manages t) id (nodeID casing dp kind namespace_ name) := by
  obtain ⟨climbed, _⟩ := loop_climbed indexed (t.edges.length + 1)
    (start_climbed casing dp t kind namespace_ name)
  rcases climbed.here with ⟨_, nowhere⟩ | ⟨apart, parsed, path⟩
  · rw [walkTopmostOwner, nowhere] at found
    cases found
  · exact ⟨_, apart, parsed.trans found, path⟩

/-- What the first round of the loop makes the topmost owner. -/
def firstHop (casing : Casing) (dp : Option Discovery) (t : Graph) (indexed : Bool)
    (kind namespace_ name : String) : Option ResourceRef :=
  (walkLoop casing dp t (indexFor indexed t) 1 (walkStart casing dp kind namespace_ name)).topRef

theorem first_hop_some {ref : ResourceRef} : firstHop casing dp t indexed kind namespace_ name = some ref ↔
      ∃ first, (managers t (nodeID casing dp kind namespace_ name)).head? = some first ∧
        first ≠ nodeID casing dp kind namespace_ name ∧ refOf casing dp first = some ref := by
  have hops : ∀ w', ownerHop casing dp t (indexFor indexed t)
      (walkStart casing dp kind namespace_ name) = some w' ↔ _ := fun w' =>
    hop_first (node_id_named kind namespace_ name)
  simp only [walkStart, mem_singleton] at hops
  simp only [firstHop, walkLoop, walkStart]
  cases hop : ownerHop casing dp t (indexFor indexed t) (walkStart casing dp kind namespace_ name) with
  | none =>
    simp only [walkStart] at hop
    simp only [hop, reduceCtorEq, false_iff]
    rintro ⟨first, head, apart, parsed⟩
    have step := (hops _).mpr ⟨first, ref, head, apart, parsed, rfl⟩
    rw [hop] at step
    cases step
  | some w' =>
    simp only [walkStart] at hop
    obtain ⟨first, ref', head, apart, parsed, rfl⟩ := (hops w').mp hop
    simp only [hop, Option.some.injEq]
    constructor
    · rintro rfl
      exact ⟨first, head, apart, parsed⟩
    · rintro ⟨first', head', _, parsed'⟩
      rw [head] at head'
      cases head'
      rw [parsed] at parsed'
      exact Option.some.inj parsed'

theorem unmanaged_walk (none_ : ∀ m, Manages t m (nodeID casing dp kind namespace_ name) →
    refOf casing dp m = none) :
    walkTopmostOwner casing dp t (indexFor indexed t) kind namespace_ name = none := by
  have stop : ownerHop casing dp t (indexFor indexed t) (walkStart casing dp kind namespace_ name) =
      none := by
    by_contra goes
    obtain ⟨w', hop⟩ := Option.ne_none_iff_exists'.mp goes
    obtain ⟨first, ref, head, _, parsed, _⟩ := (hop_first (node_id_named kind namespace_ name)).mp hop
    rw [none_ first (manager_iff.mp (mem_of_mem_head? head))] at parsed
    cases parsed
  simp only [walkTopmostOwner, walkLoop, stop]
  rfl

theorem no_owner_iff : ((managers t (nodeID casing dp kind namespace_ name)).filterMap
    (refOf casing dp)).getLast? = none ↔
      ∀ m, Manages t m (nodeID casing dp kind namespace_ name) → refOf casing dp m = none := by
  rw [getLast?_eq_none_iff, filterMap_eq_nil_iff]
  simp only [manager_iff]

end Climb

/-- The owner shown is the first step of the walk; the walk ends, and where it ends is an ancestor
    other than the node itself. -/
structure OwnersAgree (casing : Casing) (dp : Option Discovery) (t : Graph) (indexed : Bool)
    (obj : Option Queried) (provider : Option ResourceProvider) (kind namespace_ name : String) :
    Prop where
  hop : ∀ owner, shownOwner casing dp t indexed obj provider kind namespace_ name = some owner →
    firstHop casing dp t indexed kind namespace_ name = some owner
  nothing : shownOwner casing dp t indexed obj provider kind namespace_ name = none →
    walkTopmostOwner casing dp t (indexFor indexed t) kind namespace_ name = none
  ends : ∀ rounds ≥ t.edges.length, ownerHop casing dp t (indexFor indexed t)
    (walkLoop casing dp t (indexFor indexed t) rounds
      (walkStart casing dp kind namespace_ name)) = none
  ancestor : ∀ ref, walkTopmostOwner casing dp t (indexFor indexed t) kind namespace_ name = some ref →
      ∃ id, id ≠ nodeID casing dp kind namespace_ name ∧ refOf casing dp id = some ref ∧
        Relation.TransGen (Manages t) id (nodeID casing dp kind namespace_ name)

/-- No manager of the node can be parsed; or the first is another node, can be parsed, and is shown as
    the last one that can be is shown. -/
def FirstAsLast (casing : Casing) (dp : Option Discovery) (t : Graph) (id : String) : Prop :=
  (∀ m, Manages t m id → refOf casing dp m = none) ∨
    ∃ first ref, (managers t id).head? = some first ∧ first ≠ id ∧ refOf casing dp first = some ref ∧
        ((managers t id).filterMap (refOf casing dp)).getLast? = some ref

theorem owners_agree_iff (casing : Casing) (dp : Option Discovery) (t : Graph) (indexed : Bool)
    (obj : Option Queried) (provider : Option ResourceProvider) (kind namespace_ name : String) :
    OwnersAgree casing dp t indexed obj provider kind namespace_ name ↔
      FirstAsLast casing dp t (nodeID casing dp kind namespace_ name) := by
  have shown := shown_owner casing dp t indexed obj provider kind namespace_ name
  constructor
  · intro agree
    cases last : shownOwner casing dp t indexed obj provider kind namespace_ name with
    | none =>
      rw [last] at shown
      exact .inl (no_owner_iff.mp shown.symm)
    | some owner =>
      obtain ⟨first, head, apart, parsed⟩ := first_hop_some.mp (agree.hop owner last)
      rw [last] at shown
      exact .inr ⟨first, owner, head, apart, parsed, shown.symm⟩
  · intro first_as_last
    refine ⟨fun owner reported => ?_, fun unreported => ?_, fun rounds => walk_ends,
      fun ref => walk_ancestor⟩
    · rw [shown] at reported
      rcases first_as_last with none_ | ⟨first, ref, head, apart, parsed, last⟩
      · rw [no_owner_iff.mpr none_] at reported
        cases reported
      · rw [last] at reported
        cases reported
        exact first_hop_some.mpr ⟨first, head, apart, parsed⟩
    · rw [shown] at unreported
      exact unmanaged_walk (no_owner_iff.mp unreported)

def managedBy (source : String) : Edge := ⟨"manages", source, "pod/shop/web", .manages, "", "", ""⟩

/-- A pod of a ReplicaSet that a Job has a reference to as well. -/
def twoManagers : Graph := ⟨[], [managedBy "replicaset/shop/web-1", managedBy "job/shop/warm"]⟩

theorem second_manager_shown : ¬ ∀ (t : Graph) (kind namespace_ name : String),
    OwnersAgree asciiCasing none t false none none kind namespace_ name := by
  intro claimed
  have agree := claimed twoManagers "Pod" "shop" "web"
  have hop := agree.hop ⟨"Job", "shop", "warm", ""⟩ (by decide +kernel)
  exact absurd hop (by decide +kernel)

end OwnerEdge
