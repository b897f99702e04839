import Radar.Images.LayerRules

/- The tree that is linked at the end against the flat map it is linked from. -/
namespace LayerTree
open Arrange List

section Children
variable {m : FileMap} {path : Path} {n : Node}

theorem mem_children : n ∈ childrenOf m path ↔ IsDir m path ∧ n ∈ m ∧ n.path ≠ [] ∧ dir n.path = path := by
  unfold childrenOf IsDir
  cases lookup m path with
  | none => simp
  | some parent => by_cases is_dir : parent.type = .dir <;> simp [is_dir]

theorem nodes_of (children : List FileNode) : nodesOf children = children.flatMap FileNode.nodes := by
  induction children with
  | nil => rfl
  | cons child rest ih => rw [nodesOf, ih, flatMap_cons]

theorem link_nodes (depth : Nat) (n : Node) : (link m (depth + 1) n).nodes =
    n :: (sortStable lessChild (childrenOf m n.path)).flatMap fun c => (link m depth c).nodes := by
  rw [link, FileNode.nodes, nodes_of, flatMap_map]

theorem parent_below {q : Path} (deep : q ≠ []) : Below (dir q) q ∧ q.length = (dir q).length + 1 := by
  have positive := length_pos_of_ne_nil deep
  have shorter : (dir q).length = q.length - 1 := length_dropLast
  refine ⟨⟨List.dropLast_prefix q, fun same => ?_⟩, by omega⟩
  have lengths := congrArg length same
  omega

theorem below_length {a q : Path} (below : Below a q) : a.length < q.length := by
  refine Nat.lt_of_le_of_ne below.1.length_le fun same => below.2 ?_
  exact (below.1.eq_of_length same).symm

theorem below_parent {a q : Path} (deep : q ≠ []) (above : dir q <+: a) (below : Below a q) :
    a = dir q := by
  have longer := below_length below
  have shorter := (parent_below deep).2
  have between := above.length_le
  exact (above.eq_of_length (by omega)).symm

/-- A node of the linked tree is one of the map with directories of the map all the way up. -/
theorem mem_link (distinct : (m.map Node.path).Nodup) (depth : Nat) (n n' : Node) :
    n' ∈ (link m depth n).nodes ↔ n' = n ∨ (n' ∈ m ∧ Below n.path n'.path ∧
      n'.path.length ≤ n.path.length + depth ∧
      ∀ a, n.path <+: a → Below a n'.path → IsDir m a) := by
  induction depth generalizing n with
  | zero =>
    have alone : (link m 0 n).nodes = [n] := rfl
    rw [alone, mem_singleton]
    refine (or_iff_left fun under => ?_).symm
    have longer := below_length under.2.1
    have shorter := under.2.2.1
    omega
  | succ depth ih =>
    have children : ∀ c, c ∈ sortStable lessChild (childrenOf m n.path) ↔
        IsDir m n.path ∧ c ∈ m ∧ c.path ≠ [] ∧ dir c.path = n.path :=
      fun c => (sort_perm lessChild _).mem_iff.trans mem_children
    rw [link_nodes, mem_cons, mem_flatMap]
    refine or_congr_right ⟨?_, ?_⟩
    · rintro ⟨c, child, inside⟩
      obtain ⟨is_dir, member, deep, parent⟩ := (children c).mp child
      obtain ⟨below, longer⟩ := parent_below deep
      rw [parent] at below longer
      have upper : ∀ a, n.path <+: a → Below a c.path → IsDir m a := by
        intro a above within
        rw [below_parent deep (parent.symm ▸ above) within, parent]
        exact is_dir
      rcases (ih c).mp inside with rfl | ⟨member', below', short, between⟩
      · exact ⟨member, below, by omega, upper⟩
      · refine ⟨member', below_of_below below below'.1, by omega, fun a above within => ?_⟩
        rcases below_or_above within.1 below'.1 with within' | past
        · exact upper a above within'
        · exact between a past within
    · rintro ⟨member, below, short, between⟩
      have is_dir : IsDir m n.path := between n.path prefix_rfl below
      obtain ⟨rest, whole⟩ := below.1
      cases rest with
      | nil => exact absurd (by rw [← whole, append_nil]) below.2
      | cons name rest =>
        have parent : dir (n.path ++ [name]) = n.path := dropLast_concat
        by_cases same : n'.path = n.path ++ [name]
        · have child := (children n').mpr ⟨is_dir, member, by simp [same], by rw [same, parent]⟩
          exact ⟨n', child, (ih n').mpr (.inl rfl)⟩
        · have under : Below (n.path ++ [name]) n'.path := ⟨⟨rest, by rw [← whole]; simp⟩, same⟩
          obtain ⟨c, found, _⟩ := Option.map_eq_some_iff.mp
            (between (n.path ++ [name]) (prefix_append _ _) under)
          obtain ⟨held, own⟩ := (lookup_iff distinct).mp found
          have child := (children c).mpr ⟨is_dir, held, by simp [own], by rw [own, parent]⟩
          refine ⟨c, child, (ih c).mpr (.inr ⟨member, own ▸ under, ?_, fun a past within => ?_⟩)⟩
          · rw [own, length_append, length_singleton]
            omega
          · exact between a ((prefix_append _ _).trans (own ▸ past)) within

theorem children_distinct (distinct : (m.map Node.path).Nodup) (path : Path) :
    ((childrenOf m path).map Node.path).Nodup := by
  refine distinct.sublist ?_
  unfold childrenOf
  split
  · split
    · exact filter_sublist.map Node.path
    · exact nil_sublist _
  · exact nil_sublist _

theorem link_below (distinct : (m.map Node.path).Nodup) {depth : Nat} {c n' : Node}
    (inside : n' ∈ (link m depth c).nodes) : c.path <+: n'.path := by
  rcases (mem_link distinct depth c n').mp inside with rfl | ⟨_, below, _⟩
  · exact prefix_rfl
  · exact below.1

/-- Two paths under one parent that a third goes through are one. -/
theorem siblings_apart {a b q : Path} (deep : a ≠ []) (deep' : b ≠ []) (parent : dir a = dir b)
    (through : a <+: q) (through' : b <+: q) : a = b := by
  have length := (parent_below deep).2
  have length' := (parent_below deep').2
  rw [parent, ← length'] at length
  exact (prefix_of_prefix_length_le through through' (by omega)).eq_of_length length

theorem link_distinct (distinct : (m.map Node.path).Nodup) (depth : Nat) (n : Node) :
    ((link m depth n).nodes.map Node.path).Nodup := by
  induction depth generalizing n with
  | zero => exact nodup_singleton _
  | succ depth ih =>
    rw [link_nodes, map_cons, map_flatMap, nodup_cons]
    have sorted := sort_perm lessChild (childrenOf m n.path)
    have children : ∀ c ∈ sortStable lessChild (childrenOf m n.path),
        c ∈ m ∧ c.path ≠ [] ∧ dir c.path = n.path :=
      fun c child => (mem_children.mp (sorted.mem_iff.mp child)).2
    constructor
    · intro again
      obtain ⟨c, child, inside⟩ := mem_flatMap.mp again
      obtain ⟨n', member, same⟩ := mem_map.mp inside
      obtain ⟨_, deep, parent⟩ := children c child
      have longer := (parent_below deep).2
      have shorter := (link_below distinct member).length_le
      rw [same, ← parent] at shorter
      omega
    · refine nodup_flatMap.mpr ⟨fun c _ => ih c, ?_⟩
      have part : ((sortStable lessChild (childrenOf m n.path)).map Node.path).Nodup :=
        (sorted.map Node.path).nodup_iff.mpr (children_distinct distinct n.path)
      refine (pairwise_map.mp part).imp_of_mem ?_
      intro c c' child child' differ path first second
      obtain ⟨n', member, rfl⟩ := mem_map.mp first
      obtain ⟨n'', member', same⟩ := mem_map.mp second
      obtain ⟨_, deep, parent⟩ := children c child
      obtain ⟨_, deep', parent'⟩ := children c' child'
      have through := link_below distinct member'
      rw [same] at through
      exact differ (siblings_apart deep deep' (parent.trans parent'.symm)
        (link_below distinct member) through)

end Children

section Whole
variable {m : FileMap}

theorem longest {n : Node} (member : n ∈ m) : n.path.length ≤ (m.map (·.path.length)).foldr max 0 := by
  induction m with
  | nil => exact absurd member not_mem_nil
  | cons first rest ih =>
    rcases mem_cons.mp member with rfl | later
    · exact Nat.le_max_left _ _
    · exact Nat.le_trans (ih later) (Nat.le_max_right _ _)

/-- The tree lists every path once, and below the root those that the flat map shows. -/
theorem tree_shows (distinct : (m.map Node.path).Nodup) :
    ((linkTree m).nodes.map Node.path).Nodup ∧ ∀ q, q ≠ [] → ∀ shape,
      (∃ n ∈ (linkTree m).nodes, n.path = q ∧ n.shape = shape) ↔ Shown m q shape := by
  refine ⟨link_distinct distinct _ rootNode, fun q deep shape => ?_⟩
  constructor
  · rintro ⟨n, inside, rfl, rfl⟩
    rcases (mem_link distinct _ rootNode n).mp inside with rfl | ⟨member, _, _, above⟩
    · exact absurd rfl deep
    · refine ⟨fun a below => above a nil_prefix below, ?_⟩
      rw [(lookup_iff distinct).mpr ⟨member, rfl⟩]
      rfl
  · rintro ⟨above, own⟩
    obtain ⟨n, found, rfl⟩ := Option.map_eq_some_iff.mp own
    obtain ⟨member, rfl⟩ := (lookup_iff distinct).mp found
    refine ⟨n, (mem_link distinct _ rootNode n).mpr (.inr ⟨member, ⟨List.nil_prefix, deep⟩, ?_, ?_⟩), rfl, rfl⟩
    · exact Nat.le_trans (longest member) (Nat.le_add_left _ _)
    · exact fun a _ below => above a below

end Whole
end LayerTree
