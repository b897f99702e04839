import Radar.Topology.NeighborhoodBall
import Radar.Topology.ResourceRelations

/- pkg/topology: the shared index and the scan of the edges give the same answers. The index keeps the
   edges of a node in their order, but lists those going out first and keeps none under the empty
   identifier. -/
namespace IndexAgreement
open Topology NodeRef Neighborhood NeighborhoodBall ResourceRelations LevelSearch

section Edges
variable {casing : Casing} {dp : Option Discovery} {topo : Graph}

theorem node_id_named (kind namespace_ name : String) : nodeID casing dp kind namespace_ name ≠ "" := by
  intro empty
  have letters := congrArg String.toList empty
  simp [nodeID, buildNodeID] at letters

theorem edges_agree {id : String} (named : id ≠ "") :
    edgesForNode topo (some (indexByResource topo)) id = edgesForNode topo none id := by
  simp only [edgesForNode, indexByResource, if_neg named]

theorem owner_agrees {target : String} (named : target ≠ "") :
    ownerOf topo (some (indexByResource topo)) target = ownerOf topo none target := by
  simp only [ownerOf, indexByResource, if_neg named, ← List.head?_filter, List.filter_filter]

theorem hop_agrees {w : OwnerWalk} (named : w.cur ≠ "") :
    ownerHop casing dp topo (some (indexByResource topo)) w = ownerHop casing dp topo none w := by
  simp only [ownerHop, owner_agrees named]

theorem hop_named {idx : Option RelationshipsIndex} {w w' : OwnerWalk}
    (hop : ownerHop casing dp topo idx w = some w') : w'.cur ≠ "" := by
  obtain ⟨_, named, _, _, rfl⟩ := owner_hop_some.mp hop
  exact named

theorem loop_agrees (rounds : Nat) {w : OwnerWalk} (named : w.cur ≠ "") :
    walkLoop casing dp topo (some (indexByResource topo)) rounds w =
      walkLoop casing dp topo none rounds w := by
  induction rounds generalizing w with
  | zero => rfl
  | succ rounds ih =>
    simp only [walkLoop, hop_agrees named]
    cases hop : ownerHop casing dp topo none w with
    | none => rfl
    | some w' => exact ih (hop_named hop)

theorem walk_agrees (kind namespace_ name : String) :
    walkTopmostOwner casing dp topo (some (indexByResource topo)) kind namespace_ name =
      walkTopmostOwner casing dp topo none kind namespace_ name := by
  unfold walkTopmostOwner
  rw [loop_agrees _ (node_id_named kind namespace_ name)]

theorem grandchildren_agree (rel : Relationships) :
    grandchildPods casing dp topo (some (indexByResource topo)) rel =
      grandchildPods casing dp topo none rel := by
  simp only [grandchildPods, edges_agree (node_id_named _ _ _)]

theorem grandparent_agrees (owner : ResourceRef) :
    grandparentDeployment casing dp topo (some (indexByResource topo)) owner =
      grandparentDeployment casing dp topo none owner := by
  simp only [grandparentDeployment, edges_agree (node_id_named _ _ _)]

theorem edge_relationships_agree (kind namespace_ name : String) :
    edgeRelationships casing dp topo (some (indexByResource topo)) kind namespace_ name =
      edgeRelationships casing dp topo none kind namespace_ name := by
  simp only [edgeRelationships, withDeployment, withGrandchildren, grandchildren_agree,
    grandparent_agrees, edges_agree (node_id_named kind namespace_ name)]

theorem relationships_agree (kind namespace_ name : String) (obj : Option Queried)
    (provider : Option ResourceProvider) :
    getRelationshipsWithObject casing kind namespace_ name obj (some topo) provider dp
        (some (indexByResource topo)) =
      getRelationshipsWithObject casing kind namespace_ name obj (some topo) provider dp none := by
  simp only [getRelationshipsWithObject, synthesizeManagedBy, edge_relationships_agree, walk_agrees]

end Edges

/-- One flag, and of an untruncated neighborhood the same nodes in some order, the same edges and as
    many denials. -/
structure SameNeighborhood (a b : Subgraph) : Prop where
  truncated : a.truncated = b.truncated
  nodes : a.truncated = false → a.nodes.Perm b.nodes
  edges : a.truncated = false → a.edges = b.edges
  rbacDenied : a.truncated = false → a.rbacDenied = b.rbacDenied

theorem same_refl (s : Subgraph) : SameNeighborhood s s :=
  ⟨rfl, fun _ => List.Perm.refl _, fun _ => rfl, fun _ => rfl⟩

section Neighborhood
variable {t : Graph} {opts : NeighborhoodOptions}

theorem status_named (named : ∀ n ∈ t.nodes, n.id ≠ "") (id : String)
    (allowed : status t opts id = some true) : id ≠ "" := by
  obtain ⟨n, found, _⟩ := Option.map_eq_some_iff.mp allowed
  obtain ⟨member, same⟩ := node_by_id_mem found
  exact same ▸ named n member

theorem offers_agree (allowedEdges : List EdgeType) (id : String) (some_ : id ≠ "") (other : String) :
    other ∈ offers t (indexFor true t) allowedEdges id ↔
      other ∈ offers t (indexFor false t) allowedEdges id := by
  rw [mem_offers fun _ => some_, mem_offers fun off => absurd off Bool.false_ne_true]

theorem subgraph_agrees (named : ∀ n ∈ t.nodes, n.id ≠ "") (root : ResourceRef) {rootNode : Node}
    (member : rootNode ∈ t.nodes) :
    SameNeighborhood (subgraphFrom t root opts (indexFor true t) rootNode)
      (subgraphFrom t root opts (indexFor false t) rootNode) := by
  rw [subgraph_shown, subgraph_shown]
  have agree := exact_agree (fun id => id ≠ "") (named rootNode member) (status_named named)
    (offers_agree (edgeTypesForProfile opts.profile rootNode.kind)) (budget_positive opts.maxNodes)
    (room_iff opts) (walk_exact t (indexFor true t) opts _ rootNode.id)
    (walk_exact t (indexFor false t) opts _ rootNode.id)
  generalize walkFrom t (indexFor true t) opts _ _ = w at agree ⊢
  generalize walkFrom t (indexFor false t) opts _ _ = w' at agree ⊢
  refine ⟨agree.1, fun clear => ?_, fun clear => ?_, fun clear => ?_⟩
  · exact (agree.2 clear).1.filterMap (nodeByID t)
  · have same : ∀ id, id ∈ w.order ↔ id ∈ w'.order := fun id => (agree.2 clear).1.mem_iff
    simp only [shownBy, List.contains_eq_mem, same]
  · exact (agree.2 clear).2.length_eq

theorem neighborhood_agrees (casing : Casing) (dp : Option DynamicProvider) (root : ResourceRef)
    (named : ∀ n ∈ t.nodes, n.id ≠ "") :
    SameNeighborhood
      (buildNeighborhoodWithIndex casing (some t) root opts (some (indexByResource t)) dp)
      (buildNeighborhoodWithIndex casing (some t) root opts none dp) := by
  simp only [buildNeighborhoodWithIndex]
  cases resolved : resolveRoot casing dp t root with
  | missing => exact same_refl _
  | ambiguous => exact same_refl _
  | node rootNode =>
    simp only []
    split
    · exact same_refl _
    · exact subgraph_agrees named root (resolved_member resolved)

end Neighborhood

theorem index_agrees (casing : Casing) (t : Graph) (kinds : Option DynamicProvider)
    (root : ResourceRef) (opts : NeighborhoodOptions) (kind namespace_ name : String)
    (obj : Option Queried) (provider : Option ResourceProvider) (dp : Option Discovery) :
    ((∀ n ∈ t.nodes, n.id ≠ "") → SameNeighborhood
      (buildNeighborhoodWithIndex casing (some t) root opts (some (indexByResource t)) kinds)
      (buildNeighborhoodWithIndex casing (some t) root opts none kinds)) ∧
    getRelationshipsWithObject casing kind namespace_ name obj (some t) provider dp
        (some (indexByResource t)) =
      getRelationshipsWithObject casing kind namespace_ name obj (some t) provider dp none ∧
    walkTopmostOwner casing dp t (some (indexByResource t)) kind namespace_ name =
      walkTopmostOwner casing dp t none kind namespace_ name :=
  ⟨neighborhood_agrees casing kinds root, relationships_agree kind namespace_ name obj provider,
    walk_agrees kind namespace_ name⟩

theorem web_agrees : SameNeighborhood
    (buildNeighborhoodWithIndex asciiCasing (some (shop "pod/shop/web")) webRef (upTo 25)
      (some (indexByResource (shop "pod/shop/web"))) none)
    (buildNeighborhoodWithIndex asciiCasing (some (shop "pod/shop/web")) webRef (upTo 25) none none) :=
  (index_agrees asciiCasing (shop "pod/shop/web") none webRef (upTo 25) "Pod" "shop" "web" none none
    none).1 (by decide)

/-- The pod has no identifier, so that the index loses the service before it. -/
theorem unnamed_pod_differs : ¬ ∀ (t : Graph) (root : ResourceRef) (opts : NeighborhoodOptions),
    SameNeighborhood
      (buildNeighborhoodWithIndex asciiCasing (some t) root opts (some (indexByResource t)) none)
      (buildNeighborhoodWithIndex asciiCasing (some t) root opts none none) := by
  intro claimed
  have same := claimed (shop "") webRef (upTo 25)
  have shorter := (same.nodes (by decide)).length_eq
  exact absurd shorter (by decide)

end IndexAgreement
