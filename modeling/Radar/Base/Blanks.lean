import Mathlib.Data.List.TakeWhile

/- Texts with blanks: the blanks around a text cut off, and the tokens that blanks set apart, over any
   alphabet. -/
namespace Blanks
open List

section Model
variable {α : Type} (blank : α → Bool)

def trimEnd (text : List α) : List α := (text.reverse.dropWhile blank).reverse

def trim (text : List α) : List α := trimEnd blank (text.dropWhile blank)

def fields (text : List α) : List (List α) := (text.splitOnP blank).filter fun field => ! field.isEmpty

/-- Something, and no blank in it. -/
structure Token (text : List α) : Prop where
  some_ : text ≠ []
  plain : ∀ c ∈ text, blank c = false

end Model

section Fields
variable {α : Type} {blank : α → Bool}

theorem fields_nil : fields blank ([] : List α) = [] := rfl

theorem fields_cut {c : α} (is : blank c = true) (before after : List α) :
    fields blank (before ++ c :: after) = fields blank before ++ fields blank after := by
  rw [fields, splitOnP_append_cons before after is, filter_append]
  rfl

theorem fields_skip {c : α} (is : blank c = true) (rest : List α) : fields blank (c :: rest) = fields blank rest := by
  have cut := fields_cut is [] rest
  rwa [fields_nil, nil_append, nil_append] at cut

theorem fields_token {token : List α} (one : Token blank token) : fields blank token = [token] := by
  obtain ⟨c, rest, rfl⟩ := exists_cons_of_ne_nil one.some_
  rw [fields, splitOnP_eq_singleton one.plain]
  rfl

theorem fields_cons {token : List α} (one : Token blank token) {c : α} (is : blank c = true) (rest : List α) :
    fields blank (token ++ c :: rest) = token :: fields blank rest := by
  rw [fields_cut is, fields_token one, singleton_append]

theorem fields_blanks {front : List α} (all : ∀ c ∈ front, blank c = true) (rest : List α) :
    fields blank (front ++ rest) = fields blank rest := by
  induction front with
  | nil => rfl
  | cons c front ih =>
    rw [cons_append, fields_skip (all c mem_cons_self),
      ih fun d member => all d (mem_cons_of_mem c member)]

theorem fields_behind {back : List α} (all : ∀ c ∈ back, blank c = true) (front : List α) :
    fields blank (front ++ back) = fields blank front := by
  cases back with
  | nil => rw [append_nil]
  | cons c back =>
    have rest := fields_blanks (fun d member => all d (mem_cons_of_mem c member)) []
    rw [append_nil] at rest
    rw [fields_cut (all c mem_cons_self), rest, fields_nil, append_nil]

theorem mem_fields {text field : List α} (member : field ∈ fields blank text) : Token blank field := by
  obtain ⟨piece, some_⟩ := mem_filter.mp member
  refine ⟨fun none_ => ?_, ?_⟩
  · subst none_
    cases some_
  · clear some_ member
    induction text generalizing field with
    | nil =>
      rw [splitOnP_nil, mem_singleton] at piece
      subst piece
      exact fun _ member => absurd member not_mem_nil
    | cons c rest ih =>
      rw [splitOnP_cons_eq_if_modifyHead] at piece
      by_cases here : blank c = true
      · rw [if_pos here] at piece
        cases mem_cons.mp piece with
        | inl first =>
          subst first
          exact fun _ member => absurd member not_mem_nil
        | inr later => exact ih later
      · rw [if_neg here] at piece
        obtain ⟨first, others, pieces⟩ := exists_cons_of_ne_nil (splitOnP_ne_nil blank rest)
        rw [pieces, modifyHead_cons] at piece
        rw [pieces] at ih
        cases mem_cons.mp piece with
        | inl same =>
          subst same
          intro d member
          cases mem_cons.mp member with
          | inl first => exact first ▸ eq_false_of_ne_true here
          | inr later => exact ih mem_cons_self d later
        | inr later => exact ih (mem_cons_of_mem first later)

end Fields

section Trim
variable {α : Type} {blank : α → Bool}

theorem trimEnd_split (text : List α) : ∃ back, text = trimEnd blank text ++ back ∧ ∀ c ∈ back, blank c = true := by
  refine ⟨(text.reverse.takeWhile blank).reverse, ?_, fun c member => ?_⟩
  · rw [trimEnd, ← reverse_append, takeWhile_append_dropWhile, reverse_reverse]
  · exact mem_takeWhile_imp (mem_reverse.mp member)

theorem trimEnd_solid (front : List α) {c : α} (solid : blank c = false) : trimEnd blank (front ++ [c]) = front ++ [c] := by
  rw [trimEnd, reverse_concat, dropWhile_cons_of_neg (by simp [solid]), reverse_cons, reverse_reverse]

/-- Behind a character that is no blank the end is trimmed by itself. -/
theorem trimEnd_behind (front : List α) {c : α} (solid : blank c = false) (back : List α) :
    trimEnd blank (front ++ c :: back) = front ++ c :: trimEnd blank back := by
  have kept : (c :: front.reverse).dropWhile blank = c :: front.reverse :=
    dropWhile_cons_of_neg (by simp [solid])
  rw [trimEnd, trimEnd, reverse_append, reverse_cons, append_assoc, singleton_append,
    dropWhile_append, kept]
  by_cases none_ : (back.reverse.dropWhile blank).isEmpty = true
  · rw [if_pos none_, isEmpty_iff.mp none_]
    simp
  · rw [if_neg none_]
    simp

theorem trimEnd_none {back : List α} (all : ∀ c ∈ back, blank c = true) (front : List α) :
    trimEnd blank (front ++ back) = trimEnd blank front := by
  rw [trimEnd, trimEnd, reverse_append,
    dropWhile_append_of_pos fun c member => all c (mem_reverse.mp member)]

/-- A trimmed text is empty or ends with a character that is no blank. -/
theorem trimEnd_ends (text : List α) :
    trimEnd blank text = [] ∨ ∃ front c, trimEnd blank text = front ++ [c] ∧ blank c = false := by
  rw [trimEnd]
  cases kept : text.reverse.dropWhile blank with
  | nil => exact .inl rfl
  | cons c front =>
    refine .inr ⟨front.reverse, c, reverse_cons, ?_⟩
    have held := head?_dropWhile_not blank text.reverse
    rw [kept] at held
    simpa using held

theorem trimEnd_append (front : List α) {back : List α} (some_ : trimEnd blank back ≠ []) :
    trimEnd blank (front ++ back) = front ++ trimEnd blank back := by
  obtain ⟨blanks, split_, all⟩ := @trimEnd_split _ blank back
  obtain none_ | ⟨inner, c, ends, solid⟩ := @trimEnd_ends _ blank back
  · exact absurd none_ some_
  · rw [split_, ← append_assoc, trimEnd_none all, trimEnd_none all, ends, ← append_assoc,
      trimEnd_solid _ solid, trimEnd_solid _ solid, append_assoc]

theorem trimEnd_token {token : List α} (one : Token blank token) : trimEnd blank token = token := by
  have last := dropLast_concat_getLast one.some_
  rw [← last]
  exact trimEnd_solid _ (one.plain _ (getLast_mem one.some_))

theorem trim_solid {c : α} (solid : blank c = false) (rest : List α) :
    trim blank (c :: rest) = trimEnd blank (c :: rest) := by
  rw [trim, dropWhile_cons_of_neg (by simp [solid])]

theorem fields_trimEnd (text : List α) : fields blank (trimEnd blank text) = fields blank text := by
  obtain ⟨back, split_, all⟩ := @trimEnd_split _ blank text
  exact (fields_behind all _).symm.trans (congrArg (fields blank) split_.symm)

theorem fields_trim (text : List α) : fields blank (trim blank text) = fields blank text := by
  have front : ∀ c ∈ text.takeWhile blank, blank c = true := fun c member => mem_takeWhile_imp member
  rw [trim, fields_trimEnd, ← fields_blanks front, takeWhile_append_dropWhile]

end Trim
end Blanks
