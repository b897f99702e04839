import Mathlib.Data.List.DropRight

/- Paths written with a slash, as texts over any alphabet: their cleaning by the elements alone, the last
   element, what stands before it, and a name put behind a path. -/
namespace SlashPath
open List
variable {rooted_ : Bool}

structure Signs (α : Type) where
  slash : α
  dot : α
  apart : dot ≠ slash

section Names
variable {α : Type} {g : Signs α}

def Signs.up (g : Signs α) : List α := [g.dot, g.dot]

/-- An element that stays when a path is cleaned. -/
structure Plain (g : Signs α) (name : List α) : Prop where
  some_ : name ≠ []
  dot : name ≠ [g.dot]
  up : name ≠ g.up
  slash : g.slash ∉ name

/-- What cleaning leaves: names, above steps up where the path is not rooted. -/
inductive Reduced (g : Signs α) (rooted : Bool) : List (List α) → Prop where
  | nil : Reduced g rooted []
  | name {name : List α} {stack : List (List α)} : Plain g name → Reduced g rooted stack →
      Reduced g rooted (name :: stack)
  | up {stack : List (List α)} : rooted = false → (∀ piece ∈ stack, piece = g.up) → Reduced g rooted stack →
      Reduced g rooted (g.up :: stack)

theorem up_some : g.up ≠ [] := cons_ne_nil _ _

theorem up_dot : g.up ≠ [g.dot] := by
  rw [Signs.up]
  simp

theorem up_slash : g.slash ∉ g.up := by
  rw [Signs.up]
  simp [g.apart.symm]

theorem reduced_within {rooted : Bool} {stack : List (List α)} (reduced : Reduced g rooted stack) :
    ∀ piece ∈ stack, piece ≠ [] ∧ piece ≠ [g.dot] ∧ g.slash ∉ piece := by
  induction reduced with
  | nil => exact fun _ member => absurd member not_mem_nil
  | name plain _ ih =>
    intro piece member
    cases mem_cons.mp member with
    | inl first => exact first ▸ ⟨plain.some_, plain.dot, plain.slash⟩
    | inr later => exact ih piece later
  | up _ _ _ ih =>
    intro piece member
    cases mem_cons.mp member with
    | inl first => exact first ▸ ⟨up_some, up_dot, up_slash⟩
    | inr later => exact ih piece later

theorem below_reduced {rooted : Bool} {top : List α} {below : List (List α)} (reduced : Reduced g rooted (top :: below)) :
    Reduced g rooted below := by
  cases reduced with
  | name _ reduced => exact reduced
  | up _ _ reduced => exact reduced

end Names

section Model
variable {α : Type} [DecidableEq α] (g : Signs α)

/-- A step up, which a rooted path does not go above its root. -/
def goUp (rooted : Bool) : List (List α) → List (List α)
  | [] => if rooted then [] else [g.up]
  | top :: below => if top = g.up then g.up :: top :: below else below

/-- One element more. The stack holds the last element first. -/
def cleanStep (rooted : Bool) (stack : List (List α)) (piece : List α) : List (List α) :=
  if piece = [] ∨ piece = [g.dot] then stack
  else if piece = g.up then goUp g rooted stack
  else piece :: stack

def rooted (text : List α) : Bool := text.head? = some g.slash

def stackOf (text : List α) : List (List α) := (text.splitOn g.slash).foldl (cleanStep g (rooted g text)) []

def render (rooted : Bool) (stack : List (List α)) : List α :=
  if rooted then g.slash :: [g.slash].intercalate stack.reverse
  else if stack = [] then [g.dot]
  else [g.slash].intercalate stack.reverse

def clean (text : List α) : List α := render g (rooted g text) (stackOf g text)

/-- What stands before the last element, with its slash. -/
def dirPart (text : List α) : List α := (text.reverse.dropWhile (· ≠ g.slash)).reverse

def dir (text : List α) : List α := clean g (dirPart g text)

def base (text : List α) : List α := if text = [] then [g.dot]
  else
    match text.reverse.dropWhile (· = g.slash) with
    | [] => [g.slash]
    | last => (last.takeWhile (· ≠ g.slash)).reverse

/-- The elements that are not empty with slashes between them, cleaned. -/
def join (elements : List (List α)) : List α := let some_ := elements.filter (· ≠ [])
  if some_ = [] then [] else clean g ([g.slash].intercalate some_)

end Model

section Stacks
variable {α : Type} [DecidableEq α] {g : Signs α} {rooted : Bool} {stack : List (List α)}

theorem step_plain (rooted : Bool) (stack : List (List α)) {name : List α} (plain : Plain g name) :
    cleanStep g rooted stack name = name :: stack := by
  rw [cleanStep, if_neg (not_or.mpr ⟨plain.some_, plain.dot⟩), if_neg plain.up]

theorem step_up (ups : ∀ piece ∈ stack, piece = g.up) : cleanStep g false stack g.up = g.up :: stack := by
  rw [cleanStep, if_neg (not_or.mpr ⟨up_some, up_dot⟩), if_pos rfl]
  cases stack with
  | nil => rfl
  | cons top below => rw [goUp, if_pos (ups top mem_cons_self)]

theorem goUp_reduced (reduced : Reduced g rooted stack) : Reduced g rooted (goUp g rooted stack) := by
  cases reduced with
  | nil =>
    cases rooted with
    | true => exact .nil
    | false => exact .up rfl (fun _ member => absurd member not_mem_nil) .nil
  | name plain below =>
    rw [goUp, if_neg plain.up]
    exact below
  | up free ups below =>
    rw [goUp, if_pos rfl]
    refine .up free (fun piece member => ?_) (.up free ups below)
    cases mem_cons.mp member with
    | inl first => exact first
    | inr later => exact ups piece later

theorem step_reduced (reduced : Reduced g rooted stack) {piece : List α}
    (within : g.slash ∉ piece) : Reduced g rooted (cleanStep g rooted stack piece) := by
  rw [cleanStep]
  by_cases idle : piece = [] ∨ piece = [g.dot]
  · rw [if_pos idle]
    exact reduced
  rw [if_neg idle]
  by_cases back : piece = g.up
  · rw [if_pos back]
    exact goUp_reduced reduced
  · rw [if_neg back]
    obtain ⟨some_, dot⟩ := not_or.mp idle
    exact .name ⟨some_, dot, back, within⟩ reduced

theorem steps_reduced (reduced : Reduced g rooted stack)
    {pieces : List (List α)} (within : ∀ piece ∈ pieces, g.slash ∉ piece) :
    Reduced g rooted (pieces.foldl (cleanStep g rooted) stack) := by
  induction pieces generalizing stack with
  | nil => exact reduced
  | cons piece pieces ih =>
    exact ih (step_reduced reduced (within piece mem_cons_self)) fun other member =>
      within other (mem_cons_of_mem piece member)

/-- A reduced stack is found again from its elements. -/
theorem reduced_again (reduced : Reduced g rooted stack) :
    stack.reverse.foldl (cleanStep g rooted) [] = stack := by
  induction reduced with
  | nil => rfl
  | name plain _ ih =>
    rw [reverse_cons, foldl_append, ih, foldl_cons, foldl_nil, step_plain _ _ plain]
  | up free ups _ ih =>
    subst free
    rw [reverse_cons, foldl_append, ih, foldl_cons, foldl_nil, step_up ups]

theorem step_top {top : List α} {below : List (List α)} (reduced : Reduced g rooted (top :: below)) :
    cleanStep g rooted below top = top :: below := by
  cases reduced with
  | name plain _ => exact step_plain rooted below plain
  | up free ups _ =>
    subst free
    exact step_up ups

end Stacks

section Cleaning
variable {α : Type} [DecidableEq α] {g : Signs α} {stack : List (List α)}

/-- No piece holds the separator, nor anything that the text does not hold. -/
theorem pieces_within {sep : α} {text piece : List α} (member : piece ∈ text.splitOn sep) :
    sep ∉ piece ∧ piece ⊆ text := by
  induction text generalizing piece with
  | nil =>
    rw [splitOn_nil, mem_singleton] at member
    subst member
    exact ⟨not_mem_nil, List.Subset.refl _⟩
  | cons c rest ih =>
    rw [splitOn_cons_eq_if_modifyHead] at member
    by_cases here : (c == sep) = true
    · rw [if_pos here] at member
      cases mem_cons.mp member with
      | inl first =>
        subst first
        exact ⟨not_mem_nil, nil_subset _⟩
      | inr later =>
        obtain ⟨absent, within⟩ := ih later
        exact ⟨absent, subset_cons_of_subset c within⟩
    · rw [if_neg here] at member
      obtain ⟨first, others, pieces⟩ := exists_cons_of_ne_nil (splitOn_ne_nil sep rest)
      rw [pieces, modifyHead_cons] at member
      cases mem_cons.mp member with
      | inl longer =>
        obtain ⟨absent, within⟩ := ih (pieces ▸ mem_cons_self)
        subst longer
        constructor
        · intro inside
          cases mem_cons.mp inside with
          | inl same => exact here (beq_iff_eq.mpr same.symm)
          | inr held => exact absent held
        · exact cons_subset_cons c within
      | inr later =>
        obtain ⟨absent, within⟩ := ih (pieces ▸ mem_cons_of_mem _ later)
        exact ⟨absent, subset_cons_of_subset c within⟩

theorem stackOf_reduced (text : List α) : Reduced g (rooted g text) (stackOf g text) :=
  steps_reduced .nil fun _ member => (pieces_within member).1

/-- A path of reduced elements has its first character from the first of them. -/
theorem rooted_render (reduced : Reduced g rooted_ stack) (rest : List α) :
    rooted g (render g rooted_ stack ++ rest) = rooted_ := by
  rw [render]
  cases rooted_ with
  | true => simp [rooted]
  | false =>
    rw [if_neg Bool.false_ne_true]
    by_cases none_ : stack = []
    · rw [if_pos none_]
      simp [rooted, g.apart]
    · rw [if_neg none_]
      obtain ⟨first, others, listed⟩ := exists_cons_of_ne_nil (reverse_ne_nil_iff.mpr none_)
      obtain ⟨some_, _, within⟩ := reduced_within reduced first (mem_reverse.mp (listed ▸ mem_cons_self))
      obtain ⟨c, more, rfl⟩ := exists_cons_of_ne_nil some_
      have other : c ≠ g.slash := fun same => within (same ▸ mem_cons_self)
      rw [listed]
      cases others with
      | nil => simp [rooted, other]
      | cons next others => simp [rooted, other, intercalate_cons_cons]

theorem stack_render (reduced : Reduced g rooted_ stack) :
    ((render g rooted_ stack).splitOn g.slash).foldl (cleanStep g rooted_) [] = stack := by
  have within : ∀ piece ∈ stack.reverse, g.slash ∉ piece := fun piece member =>
    (reduced_within reduced piece (mem_reverse.mp member)).2.2
  have idle : cleanStep g rooted_ [] [] = [] := by
    rw [cleanStep, if_pos (.inl rfl)]
  have again : ∀ some_ : stack.reverse ≠ [],
      (([g.slash].intercalate stack.reverse).splitOn g.slash).foldl (cleanStep g rooted_) [] = stack := by
    intro some_
    rw [splitOn_intercalate g.slash within some_]
    exact reduced_again reduced
  rw [render]
  by_cases none_ : stack = []
  · subst none_
    cases rooted_ with
    | true =>
      rw [if_pos rfl, reverse_nil, intercalate_nil, splitOn_cons_eq_if_modifyHead, if_pos (beq_self_eq_true _),
        splitOn_nil, foldl_cons, foldl_cons, foldl_nil, idle, idle]
    | false =>
      rw [if_neg Bool.false_ne_true, if_pos rfl,
        splitOn_eq_singleton (fun member => g.apart (mem_singleton.mp member).symm), foldl_cons,
        foldl_nil, cleanStep, if_pos (.inr rfl)]
  · have some_ := reverse_ne_nil_iff.mpr none_
    cases rooted_ with
    | true =>
      rw [if_pos rfl, splitOn_cons_eq_if_modifyHead, if_pos (beq_self_eq_true _), foldl_cons, idle]
      exact again some_
    | false =>
      rw [if_neg Bool.false_ne_true, if_neg none_]
      exact again some_

/-- What is put behind a cleaned path goes on from it. -/
theorem clean_behind (reduced : Reduced g rooted_ stack) (rest : List α) :
    clean g (render g rooted_ stack ++ g.slash :: rest) =
      render g rooted_ ((rest.splitOn g.slash).foldl (cleanStep g rooted_) stack) := by
  rw [clean, stackOf, rooted_render reduced, splitOn_append_cons_self, foldl_append, stack_render reduced]

theorem clean_below (reduced : Reduced g rooted_ stack) {piece : List α}
    (within : g.slash ∉ piece) :
    clean g (render g rooted_ stack ++ g.slash :: piece) = render g rooted_ (cleanStep g rooted_ stack piece) := by
  rw [clean_behind reduced, splitOn_eq_singleton within, foldl_cons, foldl_nil]

theorem clean_render (reduced : Reduced g rooted_ stack) :
    clean g (render g rooted_ stack) = render g rooted_ stack := by
  have start := rooted_render reduced []
  rw [append_nil] at start
  rw [clean, stackOf, start, stack_render reduced]

theorem clean_clean (text : List α) : clean g (clean g text) = clean g text := clean_render (stackOf_reduced text)

end Cleaning

section Fronts
variable {α : Type} {g : Signs α}

theorem intercalate_concat {sep : α} {xs : List (List α)} (some_ : xs ≠ []) (last : List α) :
    [sep].intercalate (xs ++ [last]) = [sep].intercalate xs ++ sep :: last := by
  induction xs with
  | nil => contradiction
  | cons x rest ih =>
    cases rest with
    | nil => simp [intercalate_cons_cons]
    | cons y rest =>
      rw [cons_append, cons_append, intercalate_cons_cons, ← cons_append, ih (by simp),
        intercalate_cons_cons]
      simp only [append_assoc]

/-- What stands in front of a last element: nothing, or a text that ends with a slash. -/
def Front (g : Signs α) (front : List α) : Prop := front = [] ∨ ∃ more, front = more ++ [g.slash]

/-- What stands before the last of the elements. -/
def frontOf (g : Signs α) (rooted_ : Bool) (below : List (List α)) : List α :=
  if below ≠ [] then render g rooted_ below ++ [g.slash] else if rooted_ then [g.slash] else []

theorem frontOf_front (rooted_ : Bool) (below : List (List α)) : Front g (frontOf g rooted_ below) := by
  rw [frontOf]
  by_cases some_ : below ≠ []
  · rw [if_pos some_]
    exact .inr ⟨_, rfl⟩
  · rw [if_neg some_]
    cases rooted_ with
    | true => exact .inr ⟨[], rfl⟩
    | false => exact .inl rfl

theorem render_cons (rooted_ : Bool) (top : List α) (below : List (List α)) :
    render g rooted_ (top :: below) = frontOf g rooted_ below ++ top := by
  rw [render, frontOf, reverse_cons]
  by_cases some_ : below ≠ []
  · rw [if_pos some_, render, intercalate_concat (reverse_ne_nil_iff.mpr some_), if_neg some_,
      if_neg (cons_ne_nil _ _)]
    cases rooted_ <;> simp
  · obtain rfl := not_not.mp some_
    cases rooted_ <;> simp

end Fronts

section Ends
variable {α : Type} [DecidableEq α] {g : Signs α}

theorem front_take {front : List α} (ends : Front g front) : front.reverse.takeWhile (· ≠ g.slash) = [] := by
  rcases ends with rfl | ⟨more, rfl⟩
  · rfl
  · rw [reverse_concat, takeWhile_cons_of_neg (by simp)]

theorem front_drop {front : List α} (ends : Front g front) : front.reverse.dropWhile (· ≠ g.slash) = front.reverse := by
  rcases ends with rfl | ⟨more, rfl⟩
  · rfl
  · rw [reverse_concat, dropWhile_cons_of_neg (by simp)]

theorem base_last {front name : List α} (ends : Front g front) (some_ : name ≠ []) (within : g.slash ∉ name) :
    base g (front ++ name) = name := by
  obtain ⟨c, more, turned⟩ := exists_cons_of_ne_nil (reverse_ne_nil_iff.mpr some_)
  have away : ∀ d ∈ name.reverse, decide (d ≠ g.slash) = true := fun d member =>
    decide_eq_true fun same => within (same ▸ mem_reverse.mp member)
  have kept : (front ++ name).reverse.dropWhile (· = g.slash) = name.reverse ++ front.reverse := by
    have other : c ≠ g.slash := of_decide_eq_true (away c (turned ▸ mem_cons_self))
    rw [reverse_append, turned, cons_append, dropWhile_cons_of_neg (by simp [other])]
  have last : (name.reverse ++ front.reverse).takeWhile (· ≠ g.slash) = name.reverse := by
    rw [takeWhile_append_of_pos away, front_take ends, append_nil]
  rw [base, if_neg (append_ne_nil_of_right_ne_nil front some_), kept]
  rw [turned, cons_append] at last ⊢
  simp only
  rw [last, ← turned, reverse_reverse]

theorem dirPart_last {front name : List α} (ends : Front g front) (within : g.slash ∉ name) :
    dirPart g (front ++ name) = front := by
  have away : ∀ d ∈ name.reverse, decide (d ≠ g.slash) = true := fun d member =>
    decide_eq_true fun same => within (same ▸ mem_reverse.mp member)
  rw [dirPart, reverse_append, dropWhile_append_of_pos away, front_drop ends, reverse_reverse]

theorem clean_nil : clean g [] = [g.dot] := by
  rw [clean, stackOf, splitOn_nil, foldl_cons, foldl_nil, cleanStep, if_pos (.inl rfl)]
  simp [render, rooted]

theorem clean_front {below : List (List α)} (reduced : Reduced g rooted_ below) :
    clean g (frontOf g rooted_ below) = render g rooted_ below := by
  rw [frontOf]
  by_cases some_ : below ≠ []
  · rw [if_pos some_, clean_below reduced not_mem_nil, cleanStep, if_pos (.inl rfl)]
  · obtain rfl := not_not.mp some_
    rw [if_neg some_]
    cases rooted_ with
    | true => exact clean_render (.nil : Reduced g true [])
    | false => exact clean_nil

/-- The last element below the directory of a cleaned path is the path. -/
theorem dir_base (text : List α) :
    clean g (dir g (clean g text) ++ g.slash :: base g (clean g text)) = clean g text := by
  have reduced := @stackOf_reduced _ _ g text
  rw [clean.eq_1 g text]
  cases stack : stackOf g text with
  | nil =>
    cases rooted g text with
    | true => simp [render, dir, dirPart, base, clean, rooted, stackOf, cleanStep, splitOn_cons_eq_if_modifyHead]
    | false =>
      have apart : g.slash ∉ [g.dot] := fun member => g.apart (mem_singleton.mp member).symm
      have alone : render g false [] = [] ++ [g.dot] := rfl
      rw [dir, alone, dirPart_last (.inl rfl) apart, base_last (.inl rfl) (cons_ne_nil _ _) apart, clean_nil]
      exact (clean_below (.nil : Reduced g false []) apart).trans (by rw [cleanStep, if_pos (.inr rfl)]; rfl)
  | cons top below =>
    rw [stack] at reduced
    obtain ⟨some_, _, within⟩ := reduced_within reduced top mem_cons_self
    have ends := @frontOf_front _ g (rooted g text) below
    rw [render_cons, dir, dirPart_last ends within, base_last ends some_ within, clean_front (below_reduced reduced),
      clean_below (below_reduced reduced) within, step_top reduced, render_cons]

end Ends
end SlashPath
