import Mathlib.Data.Finset.Card
import Mathlib.Data.List.AList

/- Union-find without ranks: parent pointers in a map, which every search turns straight to the root. -/
namespace UnionFind
variable {κ : Type} {x r : κ}

section Pointers
variable {f : κ → κ}

/-- Following the pointers from an element ends at a root after so many steps. -/
inductive Climbs (f : κ → κ) : κ → κ → Nat → Prop where
  | root (x : κ) (own : f x = x) : Climbs f x x 0
  | step (x r : κ) (n : Nat) (moves : f x ≠ x) (rest : Climbs f (f x) r n) : Climbs f x r (n + 1)

def Rooted (f : κ → κ) (x r : κ) : Prop := ∃ n, Climbs f x r n

/-- No element's pointers run in a circle. -/
def Grounded (f : κ → κ) : Prop := ∀ x, ∃ r, Rooted f x r

theorem climbs_unique {x r s : κ} {n m : Nat} (first : Climbs f x r n) (second : Climbs f x s m) :
    r = s ∧ n = m := by
  induction first generalizing m with
  | root x own =>
    cases second with
    | root _ _ => exact ⟨rfl, rfl⟩
    | step _ _ _ moves _ => exact absurd own moves
  | step x r n moves rest ih =>
    cases second with
    | root _ own => exact absurd own moves
    | step _ _ m _ rest' =>
      obtain ⟨roots, steps⟩ := ih rest'
      exact ⟨roots, by omega⟩

theorem rooted_unique {x r s : κ} (first : Rooted f x r) (second : Rooted f x s) : r = s := by
  obtain ⟨_, first⟩ := first
  obtain ⟨_, second⟩ := second
  exact (climbs_unique first second).1

theorem climbs_end {n : Nat} (climbs : Climbs f x r n) : f r = r := by
  induction climbs with
  | root _ own => exact own
  | step _ _ _ _ _ ih => exact ih

theorem rooted_end (rooted : Rooted f x r) : f r = r := by
  obtain ⟨_, climbs⟩ := rooted
  exact climbs_end climbs

theorem rooted_self {x : κ} (own : f x = x) : Rooted f x x := ⟨0, .root x own⟩

theorem rooted_step (moves : f x ≠ x) (rest : Rooted f (f x) r) : Rooted f x r := by
  obtain ⟨n, climbs⟩ := rest
  exact ⟨n + 1, .step x r n moves climbs⟩

/-- Pointers that lead wherever the old ones did have the same roots. -/
theorem rooted_of_forward {g : κ → κ} (grounded : Grounded f)
    (forward : ∀ y s, Rooted f y s → Rooted g y s) (y s : κ) : Rooted g y s ↔ Rooted f y s := by
  refine ⟨fun rooted => ?_, forward y s⟩
  obtain ⟨t, own⟩ := grounded y
  rwa [rooted_unique rooted (forward y t own)]

variable [DecidableEq κ]

/-- Pointing an element straight at its root changes no root. -/
theorem rooted_compress (grounded : Grounded f) (rooted : Rooted f x r) (y s : κ) :
    Rooted (Function.update f x r) y s ↔ Rooted f y s := by
  by_cases own : x = r
  · have same : Function.update f x r = f := by
      rw [own, Function.update_eq_self_iff, rooted_end rooted]
    rw [same]
  · apply rooted_of_forward grounded
    rintro y s ⟨n, climbs⟩
    have still : Function.update f x r r = r := by
      rw [Function.update_of_ne (Ne.symm own), rooted_end rooted]
    induction climbs with
    | root y own' =>
      apply rooted_self
      by_cases here : y = x
      · subst here
        exact absurd (rooted_unique (rooted_self own') rooted) own
      · rw [Function.update_of_ne here, own']
    | step y s n moves rest ih =>
      by_cases here : y = x
      · subst here
        have target : s = r := rooted_unique ⟨n + 1, .step y s n moves rest⟩ rooted
        have points : Function.update f y r y = r := Function.update_self y r f
        rw [target]
        apply rooted_step
        · rw [points]
          exact Ne.symm own
        · rw [points]
          exact rooted_self still
      · have points : Function.update f x r y = f y := Function.update_of_ne here r f
        apply rooted_step
        · rwa [points]
        · rwa [points]

/-- Pointing a root at another one moves its elements there. -/
theorem rooted_link (grounded : Grounded f) {a b : κ} (rootA : f a = a) (rootB : f b = b)
    (apart : a ≠ b) (y s : κ) : Rooted (Function.update f a b) y s ↔
      (s ≠ a ∧ Rooted f y s) ∨ (s = b ∧ Rooted f y a) := by
  have still : Rooted (Function.update f a b) b b := by
    apply rooted_self
    rw [Function.update_of_ne (Ne.symm apart), rootB]
  have forward : ∀ y s, Rooted f y s → Rooted (Function.update f a b) y (if s = a then b else s) := by
    rintro y s ⟨n, climbs⟩
    induction climbs with
    | root y own =>
      by_cases here : y = a
      · subst here
        rw [if_pos rfl]
        have points : Function.update f y b y = b := Function.update_self y b f
        apply rooted_step
        · rw [points]
          exact Ne.symm apart
        · rwa [points]
      · rw [if_neg here]
        apply rooted_self
        rw [Function.update_of_ne here, own]
    | step y s n moves rest ih =>
      have here : y ≠ a := fun same => moves (same ▸ rootA)
      have points : Function.update f a b y = f y := Function.update_of_ne here b f
      apply rooted_step
      · rwa [points]
      · rwa [points]
  constructor
  · intro rooted
    obtain ⟨t, own⟩ := grounded y
    have same := rooted_unique rooted (forward y t own)
    by_cases moved : t = a
    · rw [if_pos moved] at same
      exact Or.inr ⟨same, moved ▸ own⟩
    · rw [if_neg moved] at same
      exact Or.inl ⟨same ▸ moved, same ▸ own⟩
  · rintro (⟨other, own⟩ | ⟨rfl, own⟩)
    · have rooted := forward y s own
      rwa [if_neg other] at rooted
    · have rooted := forward y a own
      rwa [if_pos rfl] at rooted

end Pointers

variable [DecidableEq κ]

abbrev Forest (κ : Type) := AList fun _ : κ => κ

/-- An element that was never seen points at itself. -/
def up (d : Forest κ) (x : κ) : κ := (d.lookup x).getD x

/-- The search for the root, with at most so many steps; every element on the way is pointed at
    the root. -/
def search : Nat → Forest κ → κ → κ × Forest κ
  | 0, d, x => (x, d)
  | fuel + 1, d, x =>
    match d.lookup x with
    | none => (x, d.insert x x)
    | some p =>
      if p = x then (x, d)
      else ((search fuel d p).1, (search fuel d p).2.insert x (search fuel d p).1)

/-- A climb passes no element twice, so it has no more steps than there are elements. -/
def find (d : Forest κ) (x : κ) : κ × Forest κ := search (d.keys.length + 1) d x

def union (d : Forest κ) (a b : κ) : Forest κ := let ra := find d a
  let rb := find ra.2 b
  if ra.1 = rb.1 then rb.2 else rb.2.insert ra.1 rb.1

def unionAll (d : Forest κ) (pairs : List (κ × κ)) : Forest κ := pairs.foldl (fun d p => union d p.1 p.2) d

section Search
variable {d : Forest κ}

theorem up_insert (d : Forest κ) (x p : κ) : up (d.insert x p) = Function.update (up d) x p := by
  funext y
  unfold up
  by_cases here : y = x
  · subst here
    rw [AList.lookup_insert, Function.update_self, Option.getD_some]
  · rw [AList.lookup_insert_ne here, Function.update_of_ne here]

theorem up_empty : up (∅ : Forest κ) = id := by
  funext x
  simp [up]

theorem mem_of_moves {x : κ} (moves : up d x ≠ x) : x ∈ d := by
  rw [← AList.lookup_isSome]
  unfold up at moves
  cases held : d.lookup x with
  | none =>
    rw [held] at moves
    exact absurd rfl moves
  | some p => rfl

/-- The elements a climb moves away from. -/
theorem climb_nodes {n : Nat} (climbs : Climbs (up d) x r n) :
    ∃ nodes : List κ, nodes.length = n ∧ nodes.Nodup ∧
      ∀ y ∈ nodes, y ∈ d ∧ ∃ m, m ≤ n ∧ Climbs (up d) y r m := by
  induction climbs with
  | root => exact ⟨[], rfl, List.nodup_nil, by simp⟩
  | step x r n moves rest ih =>
    obtain ⟨nodes, length, distinct, below⟩ := ih
    refine ⟨x :: nodes, by simp [length], List.nodup_cons.mpr ⟨?_, distinct⟩, ?_⟩
    · intro again
      obtain ⟨_, m, short, climbs⟩ := below x again
      have same := (climbs_unique climbs (.step x r n moves rest)).2
      omega
    · intro y member
      rcases List.mem_cons.mp member with rfl | later
      · exact ⟨mem_of_moves moves, n + 1, Nat.le_refl _, .step _ r n moves rest⟩
      · obtain ⟨held, m, short, climbs⟩ := below y later
        exact ⟨held, m, by omega, climbs⟩

theorem climb_short {n : Nat} (climbs : Climbs (up d) x r n) : n ≤ d.keys.length := by
  obtain ⟨nodes, length, distinct, below⟩ := climb_nodes climbs
  have inside : nodes.toFinset ⊆ d.keys.toFinset := by
    intro y member
    rw [List.mem_toFinset] at member ⊢
    exact AList.mem_keys.mp (below y member).1
  have bound := Finset.card_le_card inside
  rw [List.toFinset_card_of_nodup distinct, length] at bound
  exact Nat.le_trans bound (List.toFinset_card_le _)

/-- The two forests have the same roots. -/
def SameRoots (d d' : Forest κ) : Prop := ∀ y s, Rooted (up d') y s ↔ Rooted (up d) y s

theorem SameRoots.grounded {d' : Forest κ} (same : SameRoots d d') (grounded : Grounded (up d)) :
    Grounded (up d') := by
  intro x
  obtain ⟨r, rooted⟩ := grounded x
  exact ⟨r, (same x r).mpr rooted⟩

theorem search_spec (grounded : Grounded (up d)) {fuel n : Nat}
    (climbs : Climbs (up d) x r n) (enough : n < fuel) :
    (search fuel d x).1 = r ∧ SameRoots d (search fuel d x).2 := by
  induction fuel generalizing n x with
  | zero => omega
  | succ fuel ih =>
    unfold search
    cases held : d.lookup x with
    | none =>
      have own : up d x = x := by rw [up, held, Option.getD_none]
      have root := (climbs_unique climbs (.root x own)).1
      refine ⟨root.symm, ?_⟩
      intro y s
      dsimp only
      rw [up_insert, Function.update_eq_self_iff.mpr own.symm]
    | some p =>
      have target : up d x = p := by rw [up, held, Option.getD_some]
      dsimp only
      by_cases own : p = x
      · rw [if_pos own]
        have root := (climbs_unique climbs (.root x (target.trans own))).1
        exact ⟨root.symm, fun _ _ => Iff.rfl⟩
      · rw [if_neg own]
        cases climbs with
        | root _ own' => exact absurd (target.symm.trans own') own
        | step _ _ n moves rest =>
          rw [target] at rest
          obtain ⟨found, same⟩ := ih rest (by omega)
          refine ⟨found, ?_⟩
          intro y s
          dsimp only
          rw [up_insert, found]
          have rooted : Rooted (up (search fuel d p).2) x r := by
            rw [same]
            exact ⟨n + 1, .step x r n moves (target ▸ rest)⟩
          rw [rooted_compress (same.grounded grounded) rooted]
          exact same y s

theorem find_spec (grounded : Grounded (up d)) (x : κ) :
    Rooted (up d) x (find d x).1 ∧ SameRoots d (find d x).2 := by
  obtain ⟨r, n, climbs⟩ := grounded x
  obtain ⟨found, same⟩ := search_spec grounded climbs (Nat.lt_succ_of_le (climb_short climbs))
  refine ⟨?_, same⟩
  rw [find, found]
  exact ⟨n, climbs⟩

end Search

section Classes
variable {d : Forest κ}

def Same (d : Forest κ) (x y : κ) : Prop := ∃ r, Rooted (up d) x r ∧ Rooted (up d) y r

theorem same_equivalence (grounded : Grounded (up d)) : Equivalence (Same d) := by
  constructor
  case refl =>
    intro x
    obtain ⟨r, rooted⟩ := grounded x
    exact ⟨r, rooted, rooted⟩
  case symm =>
    rintro x y ⟨r, first, second⟩
    exact ⟨r, second, first⟩
  case trans =>
    rintro x y z ⟨r, first, second⟩ ⟨s, third, fourth⟩
    exact ⟨r, first, rooted_unique third second ▸ fourth⟩

theorem same_of_same_roots {d' : Forest κ} (same : SameRoots d d') (x y : κ) : Same d' x y ↔ Same d x y :=
  exists_congr fun r => and_congr (same x r) (same y r)

/-- The searches answer one element exactly if they are in one class. -/
theorem find_eq_iff {x y r s : κ} (first : Rooted (up d) x r)
    (second : Rooted (up d) y s) : r = s ↔ Same d x y := by
  constructor
  · rintro rfl
    exact ⟨r, first, second⟩
  · rintro ⟨t, third, fourth⟩
    rw [rooted_unique first third, rooted_unique second fourth]

theorem union_spec (grounded : Grounded (up d)) (a b : κ) :
    Grounded (up (union d a b)) ∧ ∀ x y, Same (union d a b) x y ↔
      Same d x y ∨ (Same d x a ∧ Same d b y) ∨ (Same d x b ∧ Same d a y) := by
  obtain ⟨rootA, sameA⟩ := find_spec grounded a
  obtain ⟨rootB', sameB⟩ := find_spec (sameA.grounded grounded) b
  have rootB := (sameA b _).mp rootB'
  have after : SameRoots d (find (find d a).2 b).2 := fun y s => (sameB y s).trans (sameA y s)
  unfold union
  dsimp only
  by_cases together : (find d a).1 = (find (find d a).2 b).1
  · rw [if_pos together]
    refine ⟨after.grounded grounded, fun x y => ?_⟩
    have joined := (find_eq_iff rootA rootB).mp together
    have equivalence := same_equivalence grounded
    rw [same_of_same_roots after]
    constructor
    · exact Or.inl
    · rintro (same | ⟨toA, fromB⟩ | ⟨toB, fromA⟩)
      · exact same
      · exact equivalence.trans toA (equivalence.trans joined fromB)
      · exact equivalence.trans toB (equivalence.trans (equivalence.symm joined) fromA)
  · rw [if_neg together, up_insert]
    have link := rooted_link (after.grounded grounded) (rooted_end ((after a _).mpr rootA))
      (rooted_end ((after b _).mpr rootB)) together
    have moved : ∀ y s, Rooted (up d) y s → Rooted (Function.update (up (find (find d a).2 b).2)
        (find d a).1 (find (find d a).2 b).1) y
          (if s = (find d a).1 then (find (find d a).2 b).1 else s) := by
      intro y s rooted
      rw [link]
      by_cases own : s = (find d a).1
      · exact Or.inr ⟨if_pos own, (after y _).mpr (own ▸ rooted)⟩
      · rw [if_neg own]
        exact Or.inl ⟨own, (after y s).mpr rooted⟩
    refine ⟨?_, fun x y => ?_⟩
    · intro x
      obtain ⟨r, rooted⟩ := grounded x
      exact ⟨_, moved x r rooted⟩
    · obtain ⟨p, rootX⟩ := grounded x
      obtain ⟨q, rootY⟩ := grounded y
      have movedX := moved x p rootX
      have movedY := moved y q rootY
      rw [← up_insert] at movedX movedY
      rw [← find_eq_iff movedX movedY, ← find_eq_iff rootX rootY, ← find_eq_iff rootX rootA,
        ← find_eq_iff rootB rootY, ← find_eq_iff rootX rootB, ← find_eq_iff rootA rootY]
      grind

/-- What a union keeps together generates the same classes as the pair and the old ones. -/
theorem union_all_same (grounded : Grounded (up d)) (pairs : List (κ × κ)) :
    Grounded (up (unionAll d pairs)) ∧ ∀ x y, Same (unionAll d pairs) x y ↔
      Relation.EqvGen (fun a b => Same d a b ∨ (a, b) ∈ pairs) x y := by
  induction pairs generalizing d with
  | nil =>
    refine ⟨grounded, fun x y => ?_⟩
    have plain : (fun a b => Same d a b ∨ (a, b) ∈ ([] : List (κ × κ))) = Same d := by
      funext a b
      simp
    rw [plain, (same_equivalence grounded).eqvGen_iff]
    rfl
  | cons pair rest ih =>
    obtain ⟨a, b⟩ := pair
    obtain ⟨grounded', joined⟩ := union_spec grounded a b
    obtain ⟨grounded'', generated⟩ := ih grounded'
    refine ⟨grounded'', fun x y => (generated x y).trans ?_⟩
    have equivalence := same_equivalence grounded
    have old : ∀ {u v}, Same d u v →
        Relation.EqvGen (fun u v => Same d u v ∨ (u, v) ∈ (a, b) :: rest) u v :=
      fun same => .rel _ _ (Or.inl same)
    have pair : Relation.EqvGen (fun u v => Same d u v ∨ (u, v) ∈ (a, b) :: rest) a b :=
      .rel _ _ (Or.inr List.mem_cons_self)
    constructor
    · apply Relation.EqvGen.eqvGen_le
      rintro u v (same | listed)
      · rcases (joined u v).mp same with same | ⟨toA, fromB⟩ | ⟨toB, fromA⟩
        · exact old same
        · exact .trans _ _ _ (old toA) (.trans _ _ _ pair (old fromB))
        · exact .trans _ _ _ (old toB) (.trans _ _ _ (.symm _ _ pair) (old fromA))
      · exact .rel _ _ (Or.inr (List.mem_cons_of_mem _ listed))
    · apply Relation.EqvGen.mono
      rintro u v (same | listed)
      · exact Or.inl ((joined u v).mpr (Or.inl same))
      · rcases List.mem_cons.mp listed with own | later
        · obtain ⟨rfl, rfl⟩ := Prod.mk.inj own
          exact Or.inl ((joined u v).mpr
            (Or.inr (Or.inl ⟨equivalence.refl u, equivalence.refl v⟩)))
        · exact Or.inr later

theorem grounded_empty : Grounded (up (∅ : Forest κ)) := by
  rw [up_empty]
  exact fun x => ⟨x, rooted_self rfl⟩

theorem same_empty (x y : κ) : Same (∅ : Forest κ) x y ↔ x = y := by
  have root : ∀ z : κ, Rooted (up (∅ : Forest κ)) z z := by
    rw [up_empty]
    exact fun z => rooted_self rfl
  exact (find_eq_iff (root x) (root y)).symm

/-- From nothing, the classes are those the pairs generate. -/
theorem union_all_generates (pairs : List (κ × κ)) :
    Grounded (up (unionAll ∅ pairs)) ∧ ∀ x y, Same (unionAll ∅ pairs) x y ↔
      Relation.EqvGen (fun a b => (a, b) ∈ pairs) x y := by
  obtain ⟨grounded, generated⟩ := union_all_same grounded_empty pairs
  refine ⟨grounded, fun x y => (generated x y).trans ⟨?_, ?_⟩⟩
  · apply Relation.EqvGen.eqvGen_le
    rintro u v (same | listed)
    · rw [(same_empty u v).mp same]
      exact .refl v
    · exact .rel _ _ listed
  · exact Relation.EqvGen.mono (fun _ _ listed => Or.inr listed) x y

end Classes

end UnionFind
