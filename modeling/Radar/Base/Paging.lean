import Mathlib.Data.List.Basic

/- A page of a list: some of its elements skipped, so many of the next ones taken. -/
namespace Paging
open List
variable {α : Type}

def page (offset limit : Nat) (xs : List α) : List α := (xs.drop offset).take limit

/-- The loop that filters, skips and collects in one pass and stops when the page is full. -/
def collect (admits : α → Bool) (offset limit : Nat) : List α → List α → Nat → List α
  | [], results, _ => results
  | x :: rest, results, skipped =>
    if results.length < limit then
      if ¬ admits x then collect admits offset limit rest results skipped
      else if skipped < offset then collect admits offset limit rest results (skipped + 1)
      else collect admits offset limit rest (results ++ [x]) skipped
    else results

theorem collect_eq (admits : α → Bool) {offset limit : Nat} (xs : List α) {results : List α}
    {skipped : Nat} (within : results.length ≤ limit) (due : skipped ≤ offset) :
    collect admits offset limit xs results skipped =
      results ++ page (offset - skipped) (limit - results.length) (xs.filter admits) := by
  induction xs generalizing results skipped with
  | nil => simp [collect, page]
  | cons x rest ih =>
    by_cases room : results.length < limit
    · by_cases admitted : admits x = true
      · by_cases skip : skipped < offset
        · have more : offset - skipped = offset - (skipped + 1) + 1 := by omega
          simp only [collect, room, admitted, skip, if_true, not_true_eq_false, if_false]
          rw [ih within (by omega), filter_cons_of_pos admitted, page, page, more, drop_succ_cons]
        · have done : offset - skipped = 0 := by omega
          have left : limit - results.length = limit - (results ++ [x]).length + 1 := by
            simp only [length_append, length_singleton]
            omega
          simp only [collect, room, admitted, skip, if_true, not_true_eq_false, if_false]
          rw [ih (by simp only [length_append, length_singleton]; omega) due,
            filter_cons_of_pos admitted, page, page, done, left, drop_zero,
            drop_zero, take_succ_cons, append_assoc, singleton_append]
      · simp only [collect, room, admitted, if_true, Bool.false_eq_true, not_false_eq_true]
        rw [ih within due, filter_cons_of_neg admitted]
    · have none : limit - results.length = 0 := by omega
      simp [collect, room, page, none]

/-- One pass gives the page of the admitted elements. -/
theorem collect_page (admits : α → Bool) (offset limit : Nat) (xs : List α) :
    collect admits offset limit xs [] 0 = page offset limit (xs.filter admits) := by
  have started : ([] : List α).length ≤ limit := Nat.zero_le limit
  simpa using collect_eq admits xs started (Nat.zero_le offset)

theorem parts (offset limit : Nat) (xs : List α) :
    xs.take offset ++ (page offset limit xs ++ (xs.drop offset).drop limit) = xs := by
  rw [page, take_append_drop, take_append_drop]

/-- When filtering the elements of a page gives the page of the filtered elements: what is filtered out
   lies behind every element kept, or the pages are empty. -/
def KeepsPage (q : α → Bool) (offset limit : Nat) (xs : List α) : Prop :=
  ((∀ x ∈ page offset limit xs, q x = false) ∧ (xs.filter q).length ≤ offset) ∨
  (∀ x ∈ xs.take offset, q x = true) ∧
    ((∀ x ∈ page offset limit xs, q x = true) ∨ ∀ x ∈ (xs.drop offset).drop limit, q x = false)

section Filter
variable {q : α → Bool} {offset limit : Nat}

theorem take_filter_iff {ys zs : List α} (short : ys.length ≤ limit)
    (full : zs ≠ [] → ys.length = limit) :
    ys.filter q = (ys.filter q ++ zs.filter q).take limit ↔
      (∀ x ∈ ys, q x = true) ∨ ∀ x ∈ zs, q x = false := by
  have fewer := length_filter_le q ys
  constructor
  · intro same
    by_cases all : ∀ x ∈ ys, q x = true
    · exact Or.inl all
    · right
      have lost : (ys.filter q).length < ys.length := by
        apply Nat.lt_of_le_of_ne fewer
        intro equal
        exact all (length_filter_eq_length_iff.mp equal)
      have lengths := congrArg length same
      rw [length_take, length_append] at lengths
      have none : zs.filter q = [] := length_eq_zero_iff.mp (by omega)
      simpa using filter_eq_nil_iff.mp none
  · rintro (all | none)
    · rw [filter_eq_self.mpr all]
      by_cases last : zs = []
      · rw [last, filter_nil, append_nil, take_of_length_le short]
      · rw [← full last, take_left]
    · have empty : zs.filter q = [] := filter_eq_nil_iff.mpr fun x member => by
        simp [none x member]
      rw [empty, append_nil, take_of_length_le (Nat.le_trans fewer short)]

/-- With fewer elements kept in front than the offset counts, the first one of the page moves. -/
theorem drop_filter_iff {front ys zs : List α} (distinct : (front ++ (ys ++ zs)).Nodup)
    (room : 0 < limit) (fewer : (front.filter q).length < offset) :
    ys.filter q = page offset limit ((front ++ (ys ++ zs)).filter q) ↔
      (∀ x ∈ ys, q x = false) ∧ ((front ++ (ys ++ zs)).filter q).length ≤ offset := by
  have kept : ((front ++ (ys ++ zs)).filter q).Nodup := distinct.filter q
  constructor
  · intro same
    cases first : ys.filter q with
    | nil =>
      rw [first, page, eq_comm, take_eq_nil_iff, drop_eq_nil_iff] at same
      constructor
      · simpa using filter_eq_nil_iff.mp first
      · rcases same with none | past
        · omega
        · exact past
    | cons y rest =>
      rw [first, page] at same
      have moved : ((front ++ (ys ++ zs)).filter q)[offset]? = some y := by
        have head := congrArg head? same
        rw [head?_cons, head?_take, if_neg (by omega), head?_drop] at head
        exact head.symm
      have own : ((front ++ (ys ++ zs)).filter q)[(front.filter q).length]? = some y := by
        rw [filter_append, filter_append, first, getElem?_append_right (Nat.le_refl _)]
        simp
      have place := (List.getElem?_inj (List.getElem?_eq_some_iff.mp own).1 kept).mp
        (own.trans moved.symm)
      omega
  · rintro ⟨none, past⟩
    have empty : ys.filter q = [] := filter_eq_nil_iff.mpr fun x member => by
      simp [none x member]
    rw [empty, page, drop_of_length_le past, take_nil]

theorem page_filter_full {xs : List α} (all : ∀ x ∈ xs.take offset, q x = true)
    (long : offset ≤ xs.length) :
    (page offset limit xs).filter q = page offset limit (xs.filter q) ↔ KeepsPage q offset limit xs := by
  have split := congrArg (filter q) (parts offset limit xs)
  rw [filter_append, filter_append, filter_eq_self.mpr all] at split
  have front : (xs.take offset).length = offset := length_take_of_le long
  have after : page offset limit (xs.filter q) = ((page offset limit xs).filter q ++
      ((xs.drop offset).drop limit).filter q).take limit := by
    rw [← split]
    conv_lhs => rw [page, drop_left' front]
  have short : (page offset limit xs).length ≤ limit := length_take_le limit _
  rw [after, take_filter_iff short]
  · constructor
    · intro kept
      exact Or.inr ⟨all, kept⟩
    · rintro (⟨_, past⟩ | ⟨_, kept⟩)
      · right
        rw [← split, length_append, length_append, front] at past
        have none : ((xs.drop offset).drop limit).filter q = [] := length_eq_zero_iff.mp (by omega)
        simpa using filter_eq_nil_iff.mp none
      · exact kept
  · intro more
    rw [ne_eq, drop_eq_nil_iff] at more
    rw [page, length_take]
    omega

/-- Filtering after paging is paging after filtering for exactly these pages. -/
theorem page_filter_iff {xs : List α} (distinct : xs.Nodup) (room : 0 < limit) :
    (page offset limit xs).filter q = page offset limit (xs.filter q) ↔ KeepsPage q offset limit xs := by
  by_cases all : ∀ x ∈ xs.take offset, q x = true
  · by_cases long : offset ≤ xs.length
    · exact page_filter_full all long
    · have fewer := length_filter_le q xs
      have empty : page offset limit xs = [] := by
        rw [page, drop_of_length_le (by omega), take_nil]
      have empty' : page offset limit (xs.filter q) = [] := by
        rw [page, drop_of_length_le (by omega), take_nil]
      have kept : KeepsPage q offset limit xs := by
        refine Or.inr ⟨all, Or.inl ?_⟩
        rw [empty]
        simp
      simp [empty, empty', kept]
  · have fewer : ((xs.take offset).filter q).length < offset := by
      have shorter := length_filter_le q (xs.take offset)
      have taken := length_take_le offset xs
      have lost : ((xs.take offset).filter q).length ≠ (xs.take offset).length := fun same =>
        all (length_filter_eq_length_iff.mp same)
      omega
    have whole := parts offset limit xs
    have dropped := drop_filter_iff (q := q) (whole.symm ▸ distinct) room fewer
    rw [whole] at dropped
    rw [dropped, KeepsPage]
    simp [all]

end Filter

end Paging
