import Mathlib.Data.List.Sort
import Radar.Base.Selection

/- What an ordered selection may return: a permutation of its elements in which none stands before
   one it may not precede. Elements that may precede each other come in any order. -/
namespace Arrange
open List
variable {α : Type}

structure Arranged (before : α → α → Prop) (xs ys : List α) : Prop where
  perm : ys.Perm xs
  ordered : ys.Pairwise before

variable {before : α → α → Prop} {xs ys zs : List α}

theorem arranged_unique (strict : ∀ a ∈ xs, ∀ b ∈ xs, before a b → before b a → a = b)
    (first : Arranged before xs ys) (second : Arranged before xs zs) : ys = zs := by
  have same : zs.Perm xs := second.perm
  refine List.Perm.eq_of_pairwise ?_ first.ordered second.ordered (first.perm.trans same.symm)
  intro a b member member'
  exact strict a (first.perm.mem_iff.mp member) b (same.mem_iff.mp member')

section Preorder
variable (total : ∀ a b, before a b ∨ before b a)
  (trans : ∀ {a b c}, before a b → before b c → before a c)
include total trans

/-- Any two elements of which one may precede the other can be cut apart so. -/
theorem arrange_cut {x y : α} (present : x ∈ xs) (present' : y ∈ xs) (differ : x ≠ y)
    (first : before x y) :
    ∃ front back, Arranged before xs (front ++ back) ∧ x ∈ front ∧ y ∈ back := by
  classical
  let le : α → α → Bool := fun a b => decide (before a b)
  have leTotal : ∀ a b, le a b || le b a := fun a b => by simpa [le] using total a b
  have leTrans : ∀ a b c, le a b → le b c → le a c := fun a b c ab bc =>
    decide_eq_true (trans (of_decide_eq_true ab) (of_decide_eq_true bc))
  have inside : y ∈ xs.erase x := (mem_erase_of_ne (Ne.symm differ)).mpr present'
  have headed : (x :: y :: (xs.erase x).erase y).Perm xs :=
    ((perm_cons_erase inside).symm.cons x).trans (perm_cons_erase present).symm
  have sorted : ((x :: y :: (xs.erase x).erase y).mergeSort le).Pairwise before :=
    (pairwise_mergeSort leTrans leTotal _).imp of_decide_eq_true
  have kept : [x, y].Sublist ((x :: y :: (xs.erase x).erase y).mergeSort le) :=
    pair_sublist_mergeSort leTrans leTotal (decide_eq_true first) (by simp)
  obtain ⟨front, back, whole, mine, rest⟩ := cons_sublist_iff.mp kept
  refine ⟨front, back, ?_, mine, singleton_sublist.mp rest⟩
  rw [← whole]
  exact ⟨(mergeSort_perm _ le).trans headed, sorted⟩

end Preorder

/-- A stable sort by a comparison: of two elements neither of which is less, the first stays first. -/
def sortStable (less : α → α → Bool) (xs : List α) : List α := xs.insertionSort fun a b => less b a = false

section Stable
variable {κ : Type} [LinearOrder κ] {less : α → α → Bool} {key : α → κ}

theorem sort_perm (less : α → α → Bool) (xs : List α) : (sortStable less xs).Perm xs :=
  perm_insertionSort _ xs

theorem sort_ordered (ranks : Selection.Ranks less key) (xs : List α) :
    (sortStable less xs).Pairwise fun a b => key a ≤ key b := by
  have not_less := Selection.ranks_not ranks
  have total : Std.Total fun a b => less b a = false := by
    constructor
    intro a b
    rw [not_less, not_less]
    exact le_total (key a) (key b)
  have trans : IsTrans α fun a b => less b a = false := by
    constructor
    intro a b c
    rw [not_less, not_less, not_less]
    exact le_trans
  exact (pairwise_insertionSort _ xs).imp (not_less _ _).mp

/-- Elements of different keys come out in one order, whatever order they went in. -/
theorem sort_unique (ranks : Selection.Ranks less key) (perm : xs.Perm ys)
    (distinct : ∀ a ∈ xs, ∀ b ∈ xs, key a = key b → a = b) :
    sortStable less xs = sortStable less ys := by
  have first : Arranged (fun a b => key a ≤ key b) xs (sortStable less xs) :=
    ⟨sort_perm less xs, sort_ordered ranks xs⟩
  have second : Arranged (fun a b => key a ≤ key b) xs (sortStable less ys) :=
    ⟨(sort_perm less ys).trans perm.symm, sort_ordered ranks ys⟩
  apply arranged_unique _ first second
  intro a member b member' le le'
  exact distinct a member b member' (le_antisymm le le')

theorem insert_filter (ranks : Selection.Ranks less key) (keep : α → Bool) (a : α) {sorted : List α}
    (order : sorted.Pairwise fun x y => key x ≤ key y) :
    (sorted.orderedInsert (fun x y => less y x = false) a).filter keep =
      if keep a then (sorted.filter keep).orderedInsert (fun x y => less y x = false) a
      else sorted.filter keep := by
  have not_less := Selection.ranks_not ranks
  induction sorted with
  | nil => cases kept : keep a <;> simp [kept]
  | cons b rest ih =>
    obtain ⟨first, order'⟩ := pairwise_cons.mp order
    rw [orderedInsert_cons]
    by_cases le : less b a = false
    · rw [if_pos le, filter_cons]
      cases kept : keep a with
      | false => simp
      | true =>
        rw [if_pos rfl, if_pos rfl]
        cases rest' : (b :: rest).filter keep with
        | nil => rfl
        | cons c later =>
          have member : c ∈ b :: rest := mem_of_mem_filter (rest' ▸ mem_cons_self)
          have le' : key a ≤ key c := by
            rcases mem_cons.mp member with rfl | later'
            · exact (not_less _ _).mp le
            · exact le_trans ((not_less _ _).mp le) (first c later')
          rw [orderedInsert_cons, if_pos ((not_less _ _).mpr le')]
    · rw [if_neg le, filter_cons, ih order']
      cases kept : keep b with
      | false =>
        rw [filter_cons_of_neg (by simp [kept])]
        rfl
      | true =>
        rw [filter_cons_of_pos kept]
        cases keep a with
        | false => rfl
        | true => simp [orderedInsert_cons, le]

/-- Dropping elements and sorting commute: what stays keeps its place among the rest. -/
theorem sort_filter (ranks : Selection.Ranks less key) (keep : α → Bool) (xs : List α) :
    (sortStable less xs).filter keep = sortStable less (xs.filter keep) := by
  induction xs with
  | nil => rfl
  | cons a rest ih =>
    have first : sortStable less (a :: rest) =
        (sortStable less rest).orderedInsert (fun x y => less y x = false) a := rfl
    rw [first, insert_filter ranks keep a (sort_ordered ranks rest), ih, filter_cons]
    split
    · rfl
    · rfl

theorem sort_level (ranks : Selection.Ranks less key) {xs : List α}
    (level : ∀ a ∈ xs, ∀ b ∈ xs, key a = key b) : sortStable less xs = xs := by
  refine List.Pairwise.insertionSort_eq ?_
  refine List.Pairwise.imp_of_mem (fun member member' _ => ?_) (pairwise_of_forall fun _ _ => trivial)
  exact (Selection.ranks_not ranks _ _).mpr (level _ member _ member').le

/-- A stable sort forgets the order of its input exactly when elements of one key are equal. -/
theorem sort_free_iff (ranks : Selection.Ranks less key) (xs : List α) :
    (∀ ys, ys.Perm xs → sortStable less ys = sortStable less xs) ↔
      ∀ a ∈ xs, ∀ b ∈ xs, key a = key b → a = b := by
  constructor
  · intro free a present b present' same
    obtain ⟨others, perm⟩ := Selection.exists_front present
    obtain ⟨others', perm'⟩ := Selection.exists_front present'
    have sorted : sortStable less (a :: others) = sortStable less (b :: others') :=
      (free _ perm).trans (free _ perm').symm
    -- the elements of the key keep their order, so that each input's first one stays first
    have kept : ∀ zs : List α, (sortStable less zs).filter (fun x => decide (key x = key a)) =
        zs.filter fun x => decide (key x = key a) := by
      intro zs
      rw [sort_filter ranks]
      apply sort_level ranks
      intro x member y member'
      exact (of_decide_eq_true (mem_filter.mp member).2).trans
        (of_decide_eq_true (mem_filter.mp member').2).symm
    have firsts := congrArg (filter fun x => decide (key x = key a)) sorted
    rw [kept, kept, filter_cons_of_pos (by simp), filter_cons_of_pos (by simp [same])]
      at firsts
    exact (cons.inj firsts).1
  · intro distinct ys perm
    refine sort_unique ranks perm fun a member b member' => ?_
    exact distinct a (perm.mem_iff.mp member) b (perm.mem_iff.mp member')

/-- Where two comparisons sort a list alike, they agree on each element and one that stands before it. -/
theorem sorts_alike {κ' : Type} [LinearOrder κ'] {less' : α → α → Bool} {key' : α → κ'} (ranks : Selection.Ranks less key)
    (ranks' : Selection.Ranks less' key') {xs : List α} (same : sortStable less xs = sortStable less' xs) {x y : α}
    (inside : [x, y].Sublist xs) (above : less y x = true) : less' y x = true := by
  by_contra below
  have later : key' x ≤ key' y := (Selection.ranks_not ranks' y x).mp (Bool.eq_false_iff.mpr below)
  have sorted := sort_ordered ranks' xs
  rw [← same] at sorted
  have order := sort_ordered ranks xs
  have smaller : key y < key x := (ranks y x).mp above
  -- in the sorted list the second stands before the first, so that their keys are one and the first may not follow
  have first : x ∈ sortStable less xs := (sort_perm less xs).mem_iff.mpr (inside.subset (by simp))
  have second : y ∈ sortStable less xs := (sort_perm less xs).mem_iff.mpr (inside.subset (by simp))
  have level : key' x = key' y := by
    refine le_antisymm later ?_
    obtain ⟨front, back, whole⟩ := append_of_mem first
    rw [whole, mem_append, mem_cons] at second
    rw [whole, pairwise_append, pairwise_cons] at order sorted
    rcases second with ahead | rfl | behind
    · exact sorted.2.2 y ahead x mem_cons_self
    · exact le_rfl
    · exact absurd (order.2.1.1 y behind) smaller.not_ge
  let keep : α → Bool := fun z => decide (key' z = key' x)
  have kept : (sortStable less xs).filter keep = xs.filter keep := by
    rw [same, sort_filter ranks']
    refine sort_level ranks' fun a member b member' => ?_
    exact (of_decide_eq_true (mem_filter.mp member).2).trans (of_decide_eq_true (mem_filter.mp member').2).symm
  have pair : [x, y].Sublist (sortStable less xs) := by
    have filtered := inside.filter keep
    rw [filter_cons_of_pos (by simp [keep]), filter_cons_of_pos (by simp [keep, level]), filter_nil, ← kept] at filtered
    exact filtered.trans filter_sublist
  exact absurd (pairwise_iff_forall_sublist.mp order pair) smaller.not_ge

theorem insert_congr {less less' : α → α → Bool} {a : α} {sorted : List α} (agree : ∀ b ∈ sorted, less b a = less' b a) :
    sorted.orderedInsert (fun x y => less y x = false) a = sorted.orderedInsert (fun x y => less' y x = false) a := by
  induction sorted with
  | nil => rfl
  | cons b rest ih =>
    rw [orderedInsert_cons, orderedInsert_cons, agree b mem_cons_self,
      ih fun c member => agree c (mem_cons_of_mem b member)]

/-- Two comparisons sort a list alike exactly when they agree on whether an element comes before an earlier one. -/
theorem sorts_agree_iff {κ' : Type} [LinearOrder κ'] {less' : α → α → Bool} {key' : α → κ'} (ranks : Selection.Ranks less key)
    (ranks' : Selection.Ranks less' key') (xs : List α) :
    sortStable less xs = sortStable less' xs ↔ xs.Pairwise fun x y => less y x = less' y x := by
  constructor
  · intro same
    rw [pairwise_iff_forall_sublist]
    intro x y inside
    exact Bool.eq_iff_iff.mpr ⟨sorts_alike ranks ranks' same inside, sorts_alike ranks' ranks same.symm inside⟩
  · intro agree
    induction xs with
    | nil => rfl
    | cons x rest ih =>
      obtain ⟨first, later⟩ := pairwise_cons.mp agree
      change (sortStable less rest).orderedInsert _ x = (sortStable less' rest).orderedInsert _ x
      rw [ih later]
      exact insert_congr fun y member => first y ((sort_perm less' rest).mem_iff.mp member)

end Stable

section Cut
variable {κ : Type} [LinearOrder κ] {key : α → κ}

theorem ordered_split (k : κ) {ys : List α} (ordered : ys.Pairwise fun a b => key a ≤ key b) :
    ys = (ys.filter fun y => decide (key y < k)) ++ ys.filter fun y => !decide (key y < k) := by
  induction ys with
  | nil => rfl
  | cons y rest ih =>
    obtain ⟨first, later⟩ := pairwise_cons.mp ordered
    by_cases small : key y < k
    · rw [filter_cons_of_pos (by simpa using small), filter_cons_of_neg (by simpa using small),
        cons_append, ← ih later]
    · have none : (rest.filter fun y => decide (key y < k)) = [] := by
        rw [filter_eq_nil_iff]
        intro z member
        have more := first z member
        simpa using (not_lt.mp small).trans more
      have all : (rest.filter fun y => !decide (key y < k)) = rest := by
        rw [none, nil_append] at ih
        exact (ih later).symm
      rw [filter_cons_of_neg (by simpa using small), filter_cons_of_pos (by simpa using small),
        none, all, nil_append]

/-- The elements before one of a sorted list that are smaller all stand before it. -/
theorem smaller_before {ys : List α} (ordered : ys.Pairwise fun a b => key a ≤ key b) {i : Nat}
    (inside : i < ys.length) : (ys.filter fun y => decide (key y < key ys[i])).length ≤ i := by
  have late : ((ys.drop i).filter fun y => decide (key y < key ys[i])) = [] := by
    rw [filter_eq_nil_iff, drop_eq_getElem_cons inside]
    intro y member
    have sorted := ordered.sublist (drop_sublist i ys)
    rw [drop_eq_getElem_cons inside] at sorted
    rcases mem_cons.mp member with rfl | later
    · simp
    · simpa using (pairwise_cons.mp sorted).1 y later
  have front := length_filter_le (fun y => decide (key y < key ys[i])) (ys.take i)
  have whole := congrArg (filter fun y => decide (key y < key ys[i])) (take_append_drop i ys)
  rw [filter_append, late, append_nil] at whole
  rw [← whole]
  exact front.trans (length_take_le i ys)

/-- Where one of a key comes first in the input of a stable sort, it stands after the smaller ones. -/
theorem sorted_at (x : α) (others : List α) {less : α → α → Bool} (ranks : Selection.Ranks less key) :
    (sortStable less (x :: others))[((x :: others).filter fun y => decide (key y < key x)).length]? =
      some x := by
  have ordered := sort_ordered ranks (x :: others)
  have smaller := ((sort_perm less (x :: others)).filter fun y => decide (key y < key x)).length_eq
  rw [ordered_split (key x) ordered, ← smaller, getElem?_append_right (le_refl _), Nat.sub_self,
    sort_filter ranks, filter_cons_of_pos (by simp)]
  -- among those that are not smaller the first of the input is the first of the sorted ones
  have least : ∀ y ∈ (others.filter fun y => !decide (key y < key x)), key x ≤ key y := by
    intro y member
    simpa using (mem_filter.mp member).2
  have first : sortStable less (x :: others.filter fun y => !decide (key y < key x)) =
      x :: sortStable less (others.filter fun y => !decide (key y < key x)) := by
    change (sortStable less _).orderedInsert (fun a b => less b a = false) x = _
    cases rest : sortStable less (others.filter fun y => !decide (key y < key x)) with
    | nil => rfl
    | cons y later =>
      have member : y ∈ others.filter fun y => !decide (key y < key x) :=
        (sort_perm less _).mem_iff.mp (rest ▸ mem_cons_self)
      rw [orderedInsert_cons, if_pos ((Selection.ranks_not ranks _ _).mpr (least y member))]
  rw [first]
  rfl

/-- The first so many of the sorted elements are always the same exactly when elements of one key
    are one or stand behind so many smaller ones. -/
theorem take_free_iff (n : Nat) (xs : List α) :
    (∀ ys zs, Arranged (fun a b => key a ≤ key b) xs ys → Arranged (fun a b => key a ≤ key b) xs zs →
        ys.take n = zs.take n) ↔
      ∀ x ∈ xs, ∀ y ∈ xs, x ≠ y → key x = key y →
        n ≤ (xs.filter fun z => decide (key z < key x)).length := by
  constructor
  · intro free x present y present' differ same
    by_contra few
    have ranks : Selection.Ranks (fun a b => decide (key a < key b)) key := fun a b => by simp
    have placed : ∀ w ∈ xs, key w = key x → ∃ ys, Arranged (fun a b => key a ≤ key b) xs ys ∧
        ys[(xs.filter fun z => decide (key z < key x)).length]? = some w := by
      intro w member level
      obtain ⟨others, perm⟩ := Selection.exists_front member
      refine ⟨_, ⟨(sort_perm _ _).trans perm, sort_ordered ranks (w :: others)⟩, ?_⟩
      rw [← level, ← (perm.filter fun z => decide (key z < key w)).length_eq]
      exact sorted_at w others ranks
    obtain ⟨ys, arranged, at_⟩ := placed x present rfl
    obtain ⟨zs, arranged', at_'⟩ := placed y present' same.symm
    have taken := congrArg (fun l => l[(xs.filter fun z => decide (key z < key x)).length]?)
      (free ys zs arranged arranged')
    simp only [getElem?_take_of_lt (not_le.mp few), at_, at_', Option.some.injEq] at taken
    exact differ taken
  · intro clear ys zs first second
    have keys : ys.map key = zs.map key := by
      refine ((first.perm.trans second.perm.symm).map key).eq_of_pairwise ?_
        (pairwise_map.mpr first.ordered) (pairwise_map.mpr second.ordered)
      exact fun a b _ _ => le_antisymm
    have length : ys.length = zs.length := (first.perm.trans second.perm.symm).length_eq
    apply ext_getElem
    · rw [length_take, length_take, length]
    · intro i small small'
      rw [length_take] at small small'
      rw [getElem_take, getElem_take]
      by_contra differ
      have level : key ys[i] = key zs[i] := by
        have at_ := congrArg (fun l => l[i]?) keys
        simpa [getElem?_eq_getElem (show i < ys.length by omega),
          getElem?_eq_getElem (show i < zs.length by omega)] using at_
      have many := clear ys[i] (first.perm.mem_iff.mp (getElem_mem _)) zs[i]
        (second.perm.mem_iff.mp (getElem_mem _)) differ level
      have before := smaller_before first.ordered (show i < ys.length by omega)
      rw [(first.perm.filter _).length_eq] at before
      omega

end Cut

end Arrange
