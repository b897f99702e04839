import Mathlib.Data.List.Infix
import Radar.Base.GoText

/- Paths written as texts: what a separator cuts them into, and when one path's pieces are the first
   pieces of another. -/
namespace Segments
open GoText List

section Pieces
variable {sep : Char}

theorem split_length (text : List Char) : (text.splitOn sep).length = text.count sep + 1 := by
  induction text with
  | nil => rfl
  | cons c rest ih =>
    rw [splitOn_cons_eq_if_modifyHead, count_cons]
    by_cases here : (c == sep) = true
    · rw [if_pos here, if_pos here, length_cons, ih]
    · rw [if_neg here, if_neg here, length_modifyHead, ih, Nat.add_zero]

theorem split_inj {a b : List Char} (same : a.splitOn sep = b.splitOn sep) : a = b := by
  have restored := congrArg [sep].intercalate same
  rwa [intercalate_splitOn, intercalate_splitOn] at restored

theorem intercalate_append {xs ys : List (List Char)} (some_ : xs ≠ []) (more : ys ≠ []) :
    [sep].intercalate (xs ++ ys) = [sep].intercalate xs ++ sep :: [sep].intercalate ys := by
  induction xs with
  | nil => contradiction
  | cons x rest ih =>
    cases rest with
    | nil =>
      rw [singleton_append, intercalate_cons_of_ne_nil more, intercalate_singleton,
        append_assoc, singleton_append]
    | cons y rest =>
      rw [cons_append, intercalate_cons_of_ne_nil (by simp), ih (by simp),
        intercalate_cons_cons]
      simp only [append_assoc]

/-- A text's pieces come first among another's exactly when the other is the text or goes on behind
   it with a separator. -/
theorem split_begins {a b : List Char} : a.splitOn sep <+: b.splitOn sep ↔ b = a ∨ a ++ [sep] <+: b := by
  constructor
  · rintro ⟨more, whole⟩
    have restored := congrArg [sep].intercalate whole
    rw [intercalate_splitOn] at restored
    by_cases none : more = []
    · rw [none, append_nil, intercalate_splitOn] at restored
      exact Or.inl restored.symm
    · rw [intercalate_append (splitOn_ne_nil sep a) none, intercalate_splitOn] at restored
      exact Or.inr ⟨[sep].intercalate more, by rw [← restored]; simp⟩
  · rintro (rfl | ⟨rest, rfl⟩)
    · exact prefix_refl _
    · rw [append_assoc, singleton_append, splitOn_append_cons_self]
      exact prefix_append _ _

end Pieces

section TrimEnd

/-- The trailing blanks cut off. -/
def trimEnd (text : List Char) : List Char := (text.reverse.dropWhile isSpace).reverse

theorem trimEnd_behind {c : Char} (solid : isSpace c = false) (before after : List Char) :
    trimEnd (before ++ c :: after) = before ++ c :: trimEnd after := by
  have kept : (c :: before.reverse).dropWhile isSpace = c :: before.reverse := by
    rw [dropWhile_cons, solid]
    rfl
  rw [trimEnd, trimEnd, reverse_append, reverse_cons, append_assoc,
    singleton_append, dropWhile_append, kept]
  by_cases blank : (after.reverse.dropWhile isSpace).isEmpty = true
  · rw [if_pos blank, isEmpty_iff.mp blank]
    simp
  · rw [if_neg blank]
    simp

theorem trimEnd_countP {p : Char → Bool} (solid : ∀ c, p c = true → isSpace c = false)
    (text : List Char) : (trimEnd text).countP p = text.countP p := by
  have none : (text.reverse.takeWhile isSpace).countP p = 0 := by
    rw [countP_eq_zero]
    intro c member holds
    have blank := all_eq_true.mp all_takeWhile c member
    rw [solid c holds] at blank
    cases blank
  have split : text.reverse.countP p =
      (text.reverse.takeWhile isSpace).countP p + (text.reverse.dropWhile isSpace).countP p := by
    rw [← countP_append, takeWhile_append_dropWhile]
  rw [none, Nat.zero_add, countP_reverse] at split
  rw [trimEnd, countP_reverse, split]

end TrimEnd

end Segments
