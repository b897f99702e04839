import Radar.Base.Selection

/- A loop that keeps the best value of several lists, one after the other, and starts from a value that
   stands for none: when its result does not depend on the order within each list. -/
namespace Staged
open Selection List
variable {α κ : Type} [LinearOrder κ] {better : α → α → Bool} {key : α → κ}
variable {first second : List (List α)}

/-- The first of the lists that holds a top value holds one only. -/
def Agreed (top : α → Prop) : List (List α) → Prop
  | [] => True
  | stage :: rest =>
    (∀ x ∈ stage, ∀ y ∈ stage, top x → top y → x = y) ∧ ((∀ x ∈ stage, ¬ top x) → Agreed top rest)

/-- Of the values that no other one is better than. -/
def Settled (better : α → α → Bool) (stages : List (List α)) : Prop :=
  Agreed (Best better stages.flatten) stages

/-- Every list in an order of its own. -/
def Reordered (first second : List (List α)) : Prop := List.Forall₂ List.Perm first second

theorem agreed_congr {top top' : α → Prop} {stages : List (List α)}
    (alike : ∀ x ∈ stages.flatten, top x ↔ top' x) : Agreed top stages ↔ Agreed top' stages := by
  induction stages with
  | nil => exact Iff.rfl
  | cons stage rest ih =>
    have here : ∀ x ∈ stage, top x ↔ top' x := fun x member =>
      alike x (by rw [flatten_cons]; exact mem_append_left _ member)
    have later := ih fun x member =>
      alike x (by rw [flatten_cons]; exact mem_append_right _ member)
    rw [Agreed, Agreed, later]
    refine and_congr ?_ (imp_congr_left ?_)
    · refine forall₂_congr fun x member => forall₂_congr fun y member' => ?_
      rw [here x member, here y member']
    · exact forall₂_congr fun x member => not_congr (here x member)

theorem flatten_perm (reordered : Reordered first second) : first.flatten.Perm second.flatten := by
  induction reordered with
  | nil => exact List.Perm.refl _
  | cons perm _ ih =>
    rw [flatten_cons, flatten_cons]
    exact perm.append ih

theorem reordered_refl (stages : List (List α)) : Reordered stages stages := by
  induction stages with
  | nil => exact List.Forall₂.nil
  | cons stage rest ih => exact List.Forall₂.cons (List.Perm.refl stage) ih

theorem select_append (held : α) (xs ys : List α) :
    select better held (xs ++ ys) = select better (select better held xs) ys := foldl_append

/-- An order of the images is that of an order of the things themselves. -/
theorem perm_map_lift {β : Type} (f : β → α) {xs : List β} {ys : List α} (perm : ys.Perm (xs.map f)) :
    ∃ xs' : List β, xs'.Perm xs ∧ xs'.map f = ys := by
  have images : List.Forall₂ (fun y x => y = f x) (xs.map f) xs := by
    rw [forall₂_map_left_iff, forall₂_same]
    exact fun x _ => rfl
  obtain ⟨xs', related, perm'⟩ := perm_comp_forall₂ perm images
  refine ⟨xs', perm', ?_⟩
  have same : List.Forall₂ (fun a b => a = b) ys (xs'.map f) := forall₂_map_right_iff.mpr related
  exact (forall₂_eq_eq_eq ▸ same).symm

/-- How good the result is, is no matter of order. -/
theorem select_key_perm (ranks : Ranks better key) (held : α) {xs ys : List α} (perm : xs.Perm ys) :
    key (select better held xs) = key (select better held ys) := by
  have below : ∀ {xs ys : List α}, xs.Perm ys →
      key (select better held xs) ≤ key (select better held ys) := by
    intro xs ys perm
    exact select_le ranks held xs ((perm.cons held).mem_iff.mpr (select_mem better held ys))
  exact le_antisymm (below perm) (below perm.symm)

section Threshold
variable (ranks : Ranks better key) {least : κ} {xs : List α}
include ranks

theorem best_iff {x w : α} (present : w ∈ xs) (best : Best better xs w)
    (member : x ∈ xs) : Best better xs x ↔ key x = key w := by
  have floor : ∀ y ∈ xs, key w ≤ key y := fun y inside => (ranks_not ranks y w).mp (best y inside)
  constructor
  · intro top
    exact le_antisymm ((ranks_not ranks w x).mp (top w present)) (floor x member)
  · intro same y inside
    exact (ranks_not ranks y x).mpr (same ▸ floor y inside)

/-- A value at the bound stays, once it is held. -/
theorem select_bound {held : α} (bound : key held = least)
    (floor : ∀ y ∈ xs, least ≤ key y) : select better held xs = held := by
  apply select_held
  intro y member
  exact (ranks_not ranks y held).mpr (bound ▸ floor y member)

theorem select_front {held x : α} (worse : least < key held) (bound : key x = least)
    (floor : ∀ y ∈ xs, least ≤ key y) : select better held (x :: xs) = x := by
  apply select_next
  · exact (ranks x held).mpr (bound ▸ worse)
  · exact fun y member => (ranks_not ranks y x).mpr (bound ▸ floor y member)

/-- Either a list holds a value at the bound, and the loop comes to one, or it is still above. -/
theorem select_stage {held : α} (worse : least < key held) (floor : ∀ y ∈ xs, least ≤ key y) :
    (∃ x ∈ xs, key x = least ∧ select better held xs = x) ∨
      ((∀ x ∈ xs, key x ≠ least) ∧ least < key (select better held xs)) := by
  by_cases met : key (select better held xs) = least
  · rcases mem_cons.mp (select_mem better held xs) with kept | inside
    · rw [kept] at met
      exact absurd met (ne_of_gt worse)
    · exact Or.inl ⟨_, inside, met, rfl⟩
  · have lower := fun y member => select_le ranks held xs (y := y) (mem_cons_of_mem held member)
    have above : least < key (select better held xs) := by
      rcases mem_cons.mp (select_mem better held xs) with kept | inside
      · rw [kept]
        exact worse
      · exact lt_of_le_of_ne (floor _ inside) (Ne.symm met)
    exact Or.inr ⟨fun x member same => absurd (lower x member) (not_le.mpr (same ▸ above)), above⟩

theorem agreed_free (reordered : Reordered first second)
    {held held' : α} (worse : least < key held) (worse' : least < key held')
    (floor : ∀ y ∈ second.flatten, least ≤ key y) (reached : ∃ x ∈ second.flatten, key x = least)
    (agreed : Agreed (fun x => key x = least) second) :
    select better held first.flatten = select better held' second.flatten := by
  induction reordered generalizing held held' with
  | nil =>
    obtain ⟨x, member, _⟩ := reached
    exact absurd member not_mem_nil
  | cons perm later ih =>
    rename_i stage stage' rest rest'
    rw [flatten_cons] at floor reached
    rw [flatten_cons, flatten_cons, select_append, select_append]
    have floor' : ∀ y ∈ stage', least ≤ key y := fun y member =>
      floor y (mem_append_left _ member)
    have floorRest : ∀ y ∈ rest'.flatten, least ≤ key y := fun y member =>
      floor y (mem_append_right _ member)
    have floorPerm : ∀ y ∈ rest.flatten, least ≤ key y := fun y member =>
      floorRest y ((flatten_perm later).mem_iff.mp member)
    rcases select_stage ranks worse' floor' with ⟨x', inside', bound', same'⟩ | ⟨none', above'⟩
    · have floorStage : ∀ y ∈ stage, least ≤ key y := fun y member =>
        floor' y (perm.mem_iff.mp member)
      rcases select_stage ranks worse floorStage with ⟨x, inside, bound, same⟩ | ⟨none_, _⟩
      · rw [same, same', select_bound ranks bound floorPerm, select_bound ranks bound' floorRest]
        exact agreed.1 x (perm.mem_iff.mp inside) x' inside' bound bound'
      · exact absurd bound' (none_ x' (perm.mem_iff.mpr inside'))
    · have nothing : ∀ x ∈ stage, key x ≠ least := fun x member => none' x (perm.mem_iff.mp member)
      have above : least < key (select better held stage) := by
        rcases mem_cons.mp (select_mem better held stage) with kept | inside
        · rw [kept]
          exact worse
        · exact lt_of_le_of_ne (floor' _ (perm.mem_iff.mp inside)) (Ne.symm (nothing _ inside))
      refine ih above above' floorRest ?_ (agreed.2 none')
      obtain ⟨x, member, bound⟩ := reached
      rcases mem_append.mp member with inside | inside
      · exact absurd bound (none' x inside)
      · exact ⟨x, inside, bound⟩

theorem free_agreed {stages : List (List α)} {held : α} (worse : least < key held)
    (floor : ∀ y ∈ stages.flatten, least ≤ key y)
    (free : ∀ other, Reordered other stages →
      select better held other.flatten = select better held stages.flatten) :
    Agreed (fun x => key x = least) stages := by
  induction stages generalizing held with
  | nil => trivial
  | cons stage rest ih =>
    rw [flatten_cons] at floor
    have floorRest : ∀ y ∈ rest.flatten, least ≤ key y := fun y member =>
      floor y (mem_append_right _ member)
    constructor
    · intro x member y member' bound bound'
      have front : ∀ z ∈ stage, key z = least → select better held (stage :: rest).flatten = z := by
        intro z inside level
        obtain ⟨others, perm⟩ := exists_front inside
        rw [← free ((z :: others) :: rest) (List.Forall₂.cons perm (reordered_refl rest)),
          flatten_cons, cons_append]
        apply select_front ranks worse level
        intro y member
        rcases mem_append.mp member with other | later
        · exact floor y (mem_append_left _
            (perm.mem_iff.mp (mem_cons_of_mem z other)))
        · exact floorRest y later
      exact (front x member bound).symm.trans (front y member' bound')
    · intro none_
      have above : least < key (select better held stage) := by
        rcases mem_cons.mp (select_mem better held stage) with kept | inside
        · rw [kept]
          exact worse
        · exact lt_of_le_of_ne (floor _ (mem_append_left _ inside)) (Ne.symm (none_ _ inside))
      apply ih above floorRest
      intro other reordered
      have same := free (stage :: other) (List.Forall₂.cons (List.Perm.refl stage) reordered)
      rwa [flatten_cons, flatten_cons, select_append, select_append] at same

end Threshold

/-- The loop's result is the same in every order within the lists exactly when the first list that
    holds a best value holds one only. -/
theorem staged_free_iff (ranks : Ranks better key) {absent : α} (worst : ∀ x, key x ≤ key absent)
    (only : ∀ x, key x = key absent → x = absent) (stages : List (List α)) :
    (∀ other, Reordered other stages →
      select better absent other.flatten = select better absent stages.flatten) ↔
      Settled better stages := by
  have lower := fun y member => select_le ranks absent stages.flatten (y := y)
    (mem_cons_of_mem absent member)
  by_cases kept : select better absent stages.flatten = absent
  · have all : ∀ x ∈ stages.flatten, x = absent := fun x member =>
      only x (le_antisymm (worst x) (kept ▸ lower x member))
    refine iff_of_true (fun other reordered => ?_) ?_
    · rw [kept]
      rcases mem_cons.mp (select_mem better absent other.flatten) with same | member
      · exact same
      · exact all _ ((flatten_perm reordered).mem_iff.mp member)
    · clear kept lower
      unfold Settled
      generalize Best better stages.flatten = top
      induction stages with
      | nil => trivial
      | cons stage rest ih =>
        rw [flatten_cons] at all
        refine ⟨fun x member y member' _ _ => ?_, fun _ => ih fun x member => ?_⟩
        · rw [all x (mem_append_left _ member), all y (mem_append_left _ member')]
        · exact all x (mem_append_right _ member)
  · have inside : select better absent stages.flatten ∈ stages.flatten :=
      (mem_cons.mp (select_mem better absent stages.flatten)).resolve_left kept
    have worse : key (select better absent stages.flatten) < key absent :=
      lt_of_le_of_ne (worst _) fun level => kept (only _ level)
    have best : Best better stages.flatten (select better absent stages.flatten) := fun y member =>
      select_best ranks absent stages.flatten y (mem_cons_of_mem absent member)
    rw [Settled, agreed_congr fun x member => best_iff ranks inside best member]
    constructor
    · exact free_agreed ranks worse lower
    · intro agreed other reordered
      exact agreed_free ranks reordered worse worse lower ⟨_, inside, rfl⟩ agreed

end Staged
