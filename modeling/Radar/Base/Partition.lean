import Mathlib.Algebra.BigOperators.Group.List.Basic
import Mathlib.Algebra.GroupWithZero.Nat
import Mathlib.Data.Multiset.MapFold

/- Lists of groups that are the classes of a relation among the elements of a list. -/
namespace Partition
open List
variable {α κ : Type} {related : α → α → Prop} {xs : List α} {groups : List (List α)} {key : α → κ}
variable {keys : List κ}

structure Grouped (related : α → α → Prop) (xs : List α) (groups : List (List α)) : Prop where
  all : groups.flatten.Perm xs
  inhabited : [] ∉ groups
  together : ∀ g ∈ groups, ∀ a ∈ g, ∀ b ∈ g, related a b
  apart : groups.Pairwise fun g h => ∀ a ∈ g, ∀ b ∈ h, ¬ related a b

/-- Sorting the elements by their keys loses none and doubles none. -/
theorem sorted_by_key_perm [DecidableEq κ] (distinct : keys.Nodup)
    (within : ∀ x ∈ xs, key x ∈ keys) :
    (keys.map fun k => xs.filter fun x => decide (key x = k)).flatten.Perm xs := by
  induction xs with
  | nil =>
    have empty : (keys.map fun k => ([] : List α).filter fun x => decide (key x = k)).flatten = [] := by
      rw [flatten_eq_nil_iff]
      simp
    rw [empty]
  | cons x rest ih =>
    obtain ⟨before, after, split⟩ := append_of_mem (within x mem_cons_self)
    have later := ih fun y member => within y (mem_cons_of_mem x member)
    rw [split] at distinct later ⊢
    obtain ⟨_, distinct', disjoint⟩ := nodup_append.mp distinct
    obtain ⟨lacking, _⟩ := nodup_cons.mp distinct'
    have other : ∀ ks : List κ, key x ∉ ks →
        (ks.map fun k => (x :: rest).filter fun y => decide (key y = k)) =
          ks.map fun k => rest.filter fun y => decide (key y = k) := by
      intro ks absent
      apply map_congr_left
      intro k listed
      rw [filter_cons_of_neg]
      simp only [decide_eq_true_eq]
      exact fun same => absent (same ▸ listed)
    have early : key x ∉ before := fun listed => disjoint _ listed _ mem_cons_self rfl
    rw [map_append, map_cons, flatten_append, flatten_cons] at later ⊢
    rw [other before early, other after lacking, filter_cons_of_pos (by simp)]
    exact perm_middle.trans (later.cons x)

/-- The elements of some keys listed one key after another: each of them as often as its key is. -/
theorem count_blocks [DecidableEq α] [DecidableEq κ] (keys : List κ) (x : α) :
    (keys.flatMap fun k => xs.filter fun y => decide (key y = k)).count x =
      keys.count (key x) * xs.count x := by
  induction keys with
  | nil => simp
  | cons k rest ih =>
    rw [flatMap_cons, count_append, ih, count_cons, Nat.add_mul, Nat.add_comm]
    by_cases own : key x = k
    · rw [count_filter (by simp [own]), own, if_pos (by simp), Nat.one_mul]
    · have none : x ∉ xs.filter fun y => decide (key y = k) := by simp [own]
      rw [count_eq_zero_of_not_mem none, if_neg (by simp [Ne.symm own]), Nat.zero_mul]

/-- They are the elements, each as often as it was, exactly when the key of each is listed once. -/
theorem blocks_perm_iff [DecidableEq α] [DecidableEq κ] :
    (keys.flatMap fun k => xs.filter fun y => decide (key y = k)).Perm xs ↔
      ∀ x ∈ xs, keys.count (key x) = 1 := by
  rw [perm_iff_count]
  simp only [count_blocks]
  constructor
  · intro same x member
    have some : 0 < xs.count x := count_pos_iff.mpr member
    exact Nat.eq_of_mul_eq_mul_right some ((same x).trans (Nat.one_mul _).symm)
  · intro once x
    by_cases member : x ∈ xs
    · rw [once x member, Nat.one_mul]
    · rw [count_eq_zero_of_not_mem member, Nat.mul_zero]

/-- The elements of each key, where every key is used. -/
theorem partition_by_key [DecidableEq κ] (distinct : keys.Nodup)
    (used : ∀ k, k ∈ keys ↔ ∃ x ∈ xs, key x = k) :
    Grouped (fun a b => key a = key b) xs
      (keys.map fun k => xs.filter fun x => decide (key x = k)) := by
  constructor
  case all => exact sorted_by_key_perm distinct fun x member => (used _).mpr ⟨x, member, rfl⟩
  case inhabited =>
    intro empty
    obtain ⟨k, listed, none⟩ := mem_map.mp empty
    obtain ⟨x, member, own⟩ := (used k).mp listed
    have found : x ∈ xs.filter fun y => decide (key y = k) :=
      mem_filter.mpr ⟨member, decide_eq_true own⟩
    rw [none] at found
    exact absurd found not_mem_nil
  case together =>
    intro g listed a first b second
    obtain ⟨k, _, rfl⟩ := mem_map.mp listed
    have own := of_decide_eq_true (mem_filter.mp first).2
    have own' := of_decide_eq_true (mem_filter.mp second).2
    exact own.trans own'.symm
  case apart =>
    rw [pairwise_map]
    apply List.Pairwise.imp _ distinct
    intro k k' other a first b second same
    have own := of_decide_eq_true (mem_filter.mp first).2
    have own' := of_decide_eq_true (mem_filter.mp second).2
    exact other (own.symm.trans (same.trans own'))

/-- In which order the groups are listed does not matter. -/
theorem Grouped.perm {groups' : List (List α)} (split : Grouped related xs groups)
    (symm : ∀ a b, related a b → related b a) (perm : groups'.Perm groups) :
    Grouped related xs groups' where
  all := perm.flatten.trans split.all
  inhabited := fun empty => split.inhabited (perm.mem_iff.mp empty)
  together := fun g listed => split.together g (perm.mem_iff.mp listed)
  apart := by
    refine (perm.pairwise_iff ?_).mpr split.apart
    intro g h apart b second a first related
    exact apart a first b second (symm b a related)

theorem Grouped.congr {related' : α → α → Prop} (split : Grouped related xs groups)
    (same : ∀ a ∈ xs, ∀ b ∈ xs, related a b ↔ related' a b) : Grouped related' xs groups := by
  have inside : ∀ g ∈ groups, ∀ a ∈ g, a ∈ xs := fun g listed a member =>
    split.all.mem_iff.mp (mem_flatten.mpr ⟨g, listed, member⟩)
  refine ⟨split.all, split.inhabited, ?_, ?_⟩
  · intro g listed a first b second
    exact (same a (inside g listed a first) b (inside g listed b second)).mp
      (split.together g listed a first b second)
  · apply List.Pairwise.imp_of_mem _ split.apart
    intro g h listed listed' apart a first b second related
    exact apart a first b second
      ((same a (inside g listed a first) b (inside h listed' b second)).mpr related)

section Unique
variable (equivalence : Equivalence related)
include equivalence

open Classical in
/-- A group is what the list holds of any of its elements' class. -/
theorem group_eq (split : Grouped related xs groups) {g : List α} (listed : g ∈ groups) {x : α}
    (member : x ∈ g) : g.Perm (xs.filter fun y => decide (related x y)) := by
  obtain ⟨before, after, rfl⟩ := append_of_mem listed
  have apart := pairwise_append.mp split.apart
  have own : g.filter (fun y => decide (related x y)) = g := by
    rw [filter_eq_self]
    intro y inside
    exact decide_eq_true (split.together g listed x member y inside)
  have early : before.flatten.filter (fun y => decide (related x y)) = [] := by
    rw [filter_eq_nil_iff]
    intro y inside same
    obtain ⟨h, held, inside⟩ := mem_flatten.mp inside
    exact apart.2.2 h held g mem_cons_self y inside x member
      (equivalence.symm (of_decide_eq_true same))
  have late : after.flatten.filter (fun y => decide (related x y)) = [] := by
    rw [filter_eq_nil_iff]
    intro y inside same
    obtain ⟨h, held, inside⟩ := mem_flatten.mp inside
    exact (pairwise_cons.mp apart.2.1).1 h held x member y inside (of_decide_eq_true same)
  have whole := split.all.filter fun y => decide (related x y)
  rwa [flatten_append, flatten_cons, filter_append, filter_append, early, late,
    own, nil_append, append_nil] at whole

theorem same_group_iff (split : Grouped related xs groups) {a b : α} :
    (∃ g ∈ groups, a ∈ g ∧ b ∈ g) ↔ a ∈ xs ∧ b ∈ xs ∧ related a b := by
  classical
  constructor
  · rintro ⟨g, listed, first, second⟩
    have inside : ∀ x ∈ g, x ∈ xs := fun x member =>
      split.all.mem_iff.mp (mem_flatten.mpr ⟨g, listed, member⟩)
    exact ⟨inside a first, inside b second, split.together g listed a first b second⟩
  · rintro ⟨first, second, same⟩
    obtain ⟨g, listed, member⟩ := mem_flatten.mp (split.all.mem_iff.mpr first)
    refine ⟨g, listed, member, ?_⟩
    rw [(group_eq equivalence split listed member).mem_iff, mem_filter]
    exact ⟨second, decide_eq_true same⟩

theorem groups_distinct (split : Grouped related xs groups) : (groups.map Multiset.ofList).Nodup := by
  rw [List.Nodup, pairwise_map]
  apply List.Pairwise.imp_of_mem _ split.apart
  intro g h listed _ apart same
  cases g with
  | nil => exact split.inhabited listed
  | cons a rest =>
    have inside : a ∈ h := (Multiset.coe_eq_coe.mp same).mem_iff.mp mem_cons_self
    exact apart a mem_cons_self a inside (equivalence.refl a)

/-- Two lists of the same elements have the same groups. -/
theorem partition_unique {xs' : List α} {groups' : List (List α)}
    (split : Grouped related xs groups) (split' : Grouped related xs' groups')
    (same : xs.Perm xs') :
    (groups.map Multiset.ofList).Perm (groups'.map Multiset.ofList) := by
  classical
  have found : ∀ {xs xs' : List α} {groups groups' : List (List α)},
      Grouped related xs groups → Grouped related xs' groups' → xs.Perm xs' →
        ∀ m ∈ groups.map Multiset.ofList, m ∈ groups'.map Multiset.ofList := by
    intro xs xs' groups groups' split split' same m listed
    obtain ⟨g, own, rfl⟩ := mem_map.mp listed
    obtain ⟨x, member⟩ := exists_mem_of_ne_nil g fun empty => split.inhabited (empty ▸ own)
    have held : x ∈ xs' := same.mem_iff.mp (split.all.mem_iff.mp
      (mem_flatten.mpr ⟨g, own, member⟩))
    obtain ⟨h, listed', member'⟩ := mem_flatten.mp (split'.all.mem_iff.mpr held)
    refine mem_map.mpr ⟨h, listed', Multiset.coe_eq_coe.mpr ?_⟩
    exact (group_eq equivalence split' listed' member').trans
      ((same.filter _).symm.trans (group_eq equivalence split own member).symm)
  rw [perm_ext_iff_of_nodup (groups_distinct equivalence split)
    (groups_distinct equivalence split')]
  intro m
  exact ⟨found split split' same m, found split' split same.symm m⟩

end Unique

section Fibres
variable [DecidableEq κ] {label : α → Option κ} {keys : List κ}

theorem key_share (k : Option κ) (once : ∀ own, k = some own → keys.count own = 1) :
    (keys.map fun k' => if k = some k' then 1 else 0).sum = if k.isSome then 1 else 0 := by
  cases k with
  | none => simp
  | some own =>
    have counted : ∀ ks : List κ,
        (ks.map fun k' => if some own = some k' then 1 else 0).sum = ks.count own := by
      intro ks
      induction ks with
      | nil => rfl
      | cons first rest ih =>
        rw [map_cons, sum_cons, ih, count_cons, Nat.add_comm]
        by_cases same : own = first
        · simp [same]
        · simp [same, Ne.symm same]
    rw [counted, once own rfl]
    rfl

/-- Counted key by key, every element with a label counts once where its key is listed once. -/
theorem sum_fibres (once : ∀ x ∈ xs, ∀ k, label x = some k → keys.count k = 1) :
    (keys.map fun k => xs.countP fun x => decide (label x = some k)).sum =
      xs.countP fun x => (label x).isSome := by
  induction xs with
  | nil => simp
  | cons x rest ih =>
    have later := ih fun y member => once y (mem_cons_of_mem x member)
    have own := key_share (label x) (once x mem_cons_self)
    simp only [countP_cons, decide_eq_true_eq]
    rw [sum_map_add, later, own]

end Fibres

end Partition
