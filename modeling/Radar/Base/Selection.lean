import Mathlib.Data.List.Perm.Basic
import Mathlib.Order.Lattice

/- A loop that keeps the better of two candidates: its winner, and when that does not depend on the
   order the candidates come in. -/
namespace Selection
open List
variable {α β κ κ' : Type} [LinearOrder κ] [LinearOrder κ'] {better : α → α → Bool} {xs : List α}
variable {x : α}

def select (better : α → α → Bool) (held : α) (candidates : List α) : α :=
  candidates.foldl (fun held x => if better x held then x else held) held

def Best (better : α → α → Bool) (candidates : List α) (x : α) : Prop :=
  ∀ y ∈ candidates, better y x = false

/-- One thing is better than another exactly when its key is smaller. -/
def Ranks (better : α → α → Bool) (key : α → κ) : Prop := ∀ x y, better x y = true ↔ key x < key y

theorem ranks_not {key : α → κ} (ranks : Ranks better key) (x y : α) :
    better x y = false ↔ key y ≤ key x := by
  rw [← Bool.not_eq_true, ranks x y, not_lt]

theorem best_perm {xs ys : List α} (perm : xs.Perm ys) (x : α) : Best better xs x ↔ Best better ys x := by
  simp only [Best, perm.mem_iff]

theorem exists_front (present : x ∈ xs) : ∃ rest, (x :: rest).Perm xs := by
  obtain ⟨before, after, whole⟩ := append_of_mem present
  exact ⟨before ++ after, whole ▸ perm_middle.symm⟩

theorem select_mem (better : α → α → Bool) (held : α) (xs : List α) :
    select better held xs ∈ held :: xs := by
  induction xs generalizing held with
  | nil => exact mem_singleton_self held
  | cons x rest ih =>
    have later := ih (if better x held then x else held)
    change select better (if better x held then x else held) rest ∈ held :: x :: rest
    rcases mem_cons.mp later with same | inside
    · rw [same]
      split <;> simp
    · exact mem_cons_of_mem held (mem_cons_of_mem x inside)

theorem select_held {held : α} (best : Best better xs held) : select better held xs = held := by
  induction xs with
  | nil => rfl
  | cons x rest ih =>
    have kept : (if better x held then x else held) = held := by
      rw [best x mem_cons_self]
      rfl
    change select better (if better x held then x else held) rest = held
    rw [kept]
    exact ih fun y member => best y (mem_cons_of_mem x member)

/-- A candidate that takes over and is not beaten afterwards. -/
theorem select_next {held x : α} (takes : better x held = true)
    (best : Best better xs x) : select better held (x :: xs) = x := by
  change select better (if better x held then x else held) xs = x
  rw [if_pos takes]
  exact select_held best

section Winner
variable {key : α → κ} (ranks : Ranks better key)
include ranks

theorem select_le (held : α) (xs : List α) {y : α} (member : y ∈ held :: xs) :
    key (select better held xs) ≤ key y := by
  induction xs generalizing held y with
  | nil =>
    rw [mem_singleton] at member
    rw [member]
    exact le_refl (key held)
  | cons x rest ih =>
    change key (select better (if better x held then x else held) rest) ≤ key y
    have first := ih (if better x held then x else held) mem_cons_self
    have lower : key (if better x held then x else held) ≤ key held ∧
        key (if better x held then x else held) ≤ key x := by
      by_cases takes : better x held = true
      · rw [if_pos takes]
        exact ⟨((ranks x held).mp takes).le, le_refl (key x)⟩
      · rw [if_neg takes]
        exact ⟨le_refl (key held), not_lt.mp ((ranks x held).not.mp takes)⟩
    rcases mem_cons.mp member with same | inside
    · rw [same]
      exact first.trans lower.1
    · rcases mem_cons.mp inside with same | later
      · rw [same]
        exact first.trans lower.2
      · exact ih _ (mem_cons_of_mem _ later)

theorem select_best (held : α) (xs : List α) : Best better (held :: xs) (select better held xs) := by
  intro y member
  exact (ranks_not ranks _ _).mpr (select_le ranks held xs member)

end Winner

/-- What the first loop leaves, seen through a function. -/
def winner (better : α → α → Bool) (f : α → β) : List α → Option β
  | [] => none
  | first :: rest => some (f (select better first rest))

/-- A last candidate, against the winner so far. -/
theorem winner_concat (better : α → α → Bool) (xs : List α) (x : α) : winner better id (xs ++ [x]) =
      some ((winner better id xs).elim x fun held => if better x held then x else held) := by
  cases xs with
  | nil => rfl
  | cons first rest => simp [winner, select, foldl_append]

theorem winner_mem (won : winner better id xs = some x) : x ∈ xs := by
  cases xs with
  | nil => cases won
  | cons first rest =>
    cases won
    exact select_mem better first rest

theorem winner_some (member : x ∈ xs) : ∃ y, winner better id xs = some y := by
  cases xs with
  | nil => cases member
  | cons first rest => exact ⟨_, rfl⟩

/-- The winner's value does not depend on the order exactly when all the best agree on it. -/
theorem winner_free_iff {key : α → κ} (ranks : Ranks better key) (f : α → β) (xs : List α) :
    (∀ ys, ys.Perm xs → winner better f ys = winner better f xs) ↔
      ∀ x ∈ xs, ∀ y ∈ xs, Best better xs x → Best better xs y → f x = f y := by
  constructor
  · intro free x present y present' best best'
    have front : ∀ z ∈ xs, Best better xs z → winner better f xs = some (f z) := by
      intro z member top
      obtain ⟨rest, perm⟩ := exists_front member
      have held : Best better rest z := fun w inside =>
        top w (perm.mem_iff.mp (mem_cons_of_mem z inside))
      rw [← free _ perm, winner, select_held held]
    have same := (front x present best).symm.trans (front y present' best')
    exact Option.some.inj same
  · intro agree ys perm
    cases ys with
    | nil => rw [nil_perm.mp perm]
    | cons first rest =>
      cases xs with
      | nil => exact absurd perm.symm (by simp)
      | cons first' rest' =>
        rw [winner, winner]
        apply congrArg some
        apply agree
        · exact perm.mem_iff.mp (select_mem better first rest)
        · exact select_mem better first' rest'
        · exact (best_perm perm _).mp (select_best ranks first rest)
        · exact select_best ranks first' rest'

/-- A second loop over a value of the candidates, which starts from that of the first one's winner. -/
def second (better : α → α → Bool) (better' : β → β → Bool) (f : α → β) : List α → Option β
  | [] => none
  | first :: rest =>
    some (select better' (f (select better first rest)) ((first :: rest).map f))

section Second
variable {key : α → κ} (ranks : Ranks better key)
  {better' : β → β → Bool} {key' : β → κ'} (ranks' : Ranks better' key') (f : α → β)

/-- The candidates whose value the second loop may come to: its best, of which the first loop's winner
   is preferred if it always is one of them. -/
def Decisive (better : α → α → Bool) (better' : β → β → Bool) (f : α → β) (xs : List α) (x : α) : Prop :=
  Best better' (xs.map f) (f x) ∧
    (Best better xs x ∨ ∃ y ∈ xs, Best better xs y ∧ ¬ Best better' (xs.map f) (f y))

theorem decisive_perm {xs ys : List α} (perm : xs.Perm ys) (x : α) :
    Decisive better better' f xs x ↔ Decisive better better' f ys x := by
  simp only [Decisive, best_perm perm, best_perm (perm.map f), perm.mem_iff]

include ranks' in
/-- Against one of the best values any other one gives way. -/
theorem best_takes {x t : α} (best : Best better' (xs.map f) (f x))
    (worse : ¬ Best better' (xs.map f) (f t)) : better' (f x) (f t) = true := by
  unfold Best at worse
  push Not at worse
  obtain ⟨v, member, beats⟩ := worse
  rw [Bool.ne_false_iff, ranks'] at beats
  exact (ranks' _ _).mpr (((ranks_not ranks' _ _).mp (best v member)).trans_lt beats)

include ranks' in
/-- The value of a decisive candidate is what the loops come to in some order. -/
theorem second_reaches (present : x ∈ xs) (decisive : Decisive better better' f xs x) :
    ∃ ys, ys.Perm xs ∧ second better better' f ys = some (f x) := by
  obtain ⟨best, top | ⟨t, member, top, worse⟩⟩ := decisive
  · obtain ⟨rest, perm⟩ := exists_front present
    have held : Best better rest x := fun y inside =>
      top y (perm.mem_iff.mp (mem_cons_of_mem x inside))
    have kept : Best better' ((x :: rest).map f) (f x) := (best_perm (perm.map f) (f x)).mpr best
    exact ⟨x :: rest, perm, by rw [second, select_held held, select_held kept]⟩
  · obtain ⟨rest, perm⟩ := exists_front member
    have differ : x ≠ t := fun same => worse (same ▸ best)
    have inside : x ∈ rest := by
      rcases mem_cons.mp (perm.mem_iff.mpr present) with same | inside
      · exact absurd same differ
      · exact inside
    obtain ⟨rest', perm'⟩ := exists_front inside
    have whole : (t :: x :: rest').Perm xs := (perm'.cons t).trans perm
    have held : Best better (x :: rest') t := fun y later =>
      top y (whole.mem_iff.mp (mem_cons_of_mem t later))
    have kept : Best better' (rest'.map f) (f x) := fun v later =>
      (best_perm (whole.map f) (f x)).mpr best v (by simp [later])
    have itself : better' (f t) (f t) = false := (ranks_not ranks' _ _).mpr (le_refl _)
    refine ⟨t :: x :: rest', whole, ?_⟩
    rw [second, select_held held, map_cons, map_cons]
    change some (select better' (if better' (f t) (f t) then f t else f t) _) = _
    rw [itself]
    exact congrArg some (select_next (best_takes ranks' f best worse) kept)

include ranks ranks' in
theorem second_decisive (first : α) (rest : List α) :
    ∃ x ∈ first :: rest, Decisive better better' f (first :: rest) x ∧
      second better better' f (first :: rest) = some (f x) := by
  have member := select_mem better first rest
  have top := select_best ranks first rest
  by_cases best : Best better' ((first :: rest).map f) (f (select better first rest))
  · exact ⟨_, member, ⟨best, Or.inl top⟩, by rw [second, select_held best]⟩
  · have winner := select_best ranks' (f (select better first rest)) ((first :: rest).map f)
    have inside : select better' (f (select better first rest)) ((first :: rest).map f) ∈
        (first :: rest).map f := by
      rcases mem_cons.mp (select_mem better' (f (select better first rest))
        ((first :: rest).map f)) with same | inside
      · rw [same]
        exact mem_map_of_mem member
      · exact inside
    obtain ⟨x, present, same⟩ := mem_map.mp inside
    refine ⟨x, present, ⟨?_, Or.inr ⟨_, member, top, best⟩⟩, by rw [second, same]⟩
    rw [same]
    exact fun v later => winner v (mem_cons_of_mem _ later)

include ranks ranks' in
theorem second_free_iff (xs : List α) :
    (∀ ys, ys.Perm xs → second better better' f ys = second better better' f xs) ↔
      ∀ x ∈ xs, ∀ y ∈ xs, Decisive better better' f xs x → Decisive better better' f xs y → f x = f y := by
  constructor
  · intro free x present y present' decisive decisive'
    obtain ⟨ys, perm, value⟩ := second_reaches ranks' f present decisive
    obtain ⟨ys', perm', value'⟩ := second_reaches ranks' f present' decisive'
    rw [free ys perm] at value
    rw [free ys' perm'] at value'
    exact Option.some.inj (value.symm.trans value')
  · intro agree ys perm
    cases ys with
    | nil => rw [nil_perm.mp perm]
    | cons first rest =>
      cases xs with
      | nil => exact absurd perm.symm (by simp)
      | cons first' rest' =>
        obtain ⟨x, present, decisive, value⟩ := second_decisive ranks ranks' f first rest
        obtain ⟨y, present', decisive', value'⟩ := second_decisive ranks ranks' f first' rest'
        rw [value, value']
        exact congrArg some (agree x (perm.mem_iff.mp present) y present'
          ((decisive_perm f perm x).mp decisive) decisive')

end Second

section Strict

/-- Being better is a strict order, in which two things need not be comparable. -/
structure Strict (better : α → α → Bool) : Prop where
  asymm : ∀ x y, better x y = true → better y x = false
  trans : ∀ x y z, better x y = true → better y z = true → better x z = true

/-- A candidate that is better than every other one. -/
def Top (better : α → α → Bool) (xs : List α) (x : α) : Prop := x ∈ xs ∧ ∀ y ∈ xs, y = x ∨ better x y = true

variable (strict : Strict better)
include strict

theorem select_beats (held : α) (xs : List α) :
    select better held xs = held ∨ better (select better held xs) held = true := by
  induction xs generalizing held with
  | nil => exact .inl rfl
  | cons x rest ih =>
    change select better (if better x held then x else held) rest = held ∨
      better (select better (if better x held then x else held) rest) held = true
    by_cases takes : better x held = true
    · rw [if_pos takes]
      cases ih x with
      | inl same => exact .inr (by rw [same]; exact takes)
      | inr beats => exact .inr (strict.trans _ _ _ beats takes)
    · rw [if_neg takes]
      exact ih held

theorem top_best (top : Top better xs x) : Best better xs x := by
  intro y member
  cases top.2 y member with
  | inr beats => exact strict.asymm x y beats
  | inl same =>
    rw [same, Bool.eq_false_iff]
    intro itself
    exact absurd itself (by rw [strict.asymm x x itself]; decide)

theorem select_top {held x : α} (top : Top better (held :: xs) x) : select better held xs = x := by
  induction xs generalizing held with
  | nil => exact (mem_singleton.mp top.1).symm
  | cons y rest ih =>
    change select better (if better y held then y else held) rest = x
    apply ih
    constructor
    · rcases mem_cons.mp top.1 with rfl | later
      · rw [if_neg (by rw [top_best strict top y (by simp)]; decide)]
        exact mem_cons_self
      · rcases mem_cons.mp later with rfl | later
        · cases top.2 held mem_cons_self with
          | inl same => simp [same]
          | inr beats => simp [beats]
        · exact mem_cons_of_mem _ later
    · intro z member
      apply top.2 z
      rcases mem_cons.mp member with rfl | later
      · split <;> simp
      · exact mem_cons_of_mem _ (mem_cons_of_mem _ later)

theorem winner_top (top : Top better xs x) : winner better id xs = some x := by
  cases xs with
  | nil => exact absurd top.1 not_mem_nil
  | cons first rest => exact congrArg some (select_top strict top)

/-- A loop that starts with one that the winner is not better than has another winner. -/
theorem winner_first (held : α) (rest : List α) :
    ∃ x, winner better id (held :: rest) = some x ∧ (x = held ∨ better x held = true) :=
  ⟨_, rfl, select_beats strict held rest⟩

end Strict

section Held
variable {key : α → κ} (ranks : Ranks better key)
include ranks

theorem ranks_strict : Strict better where
  asymm := by
    intro x y first
    exact (ranks_not ranks y x).mpr ((ranks x y).mp first).le
  trans := by
    intro x y z first second
    exact (ranks x z).mpr (((ranks x y).mp first).trans ((ranks y z).mp second))

/-- From one start the order of the candidates does not count exactly when those that may take over
    for good agree. -/
theorem select_free_iff (f : α → β) (held : α) (xs : List α) :
    (∀ ys zs, ys.Perm xs → zs.Perm xs → f (select better held ys) = f (select better held zs)) ↔
      ∀ x ∈ xs, ∀ y ∈ xs, better x held = true → better y held = true → Best better xs x →
        Best better xs y → f x = f y := by
  constructor
  · intro free x present y present' takes takes' best best'
    have front : ∀ z ∈ xs, better z held = true → Best better xs z →
        ∃ zs, zs.Perm xs ∧ select better held zs = z := by
      intro z member over_ top
      obtain ⟨rest, perm⟩ := exists_front member
      exact ⟨z :: rest, perm, select_next over_ fun w inside =>
        top w (perm.mem_iff.mp (mem_cons_of_mem z inside))⟩
    obtain ⟨ys, perm, first⟩ := front x present takes best
    obtain ⟨zs, perm', second⟩ := front y present' takes' best'
    rw [← first, ← second]
    exact free ys zs perm perm'
  · intro agree ys zs perm perm'
    have level : key (select better held ys) = key (select better held zs) := by
      have least := fun ws y => @select_le _ _ _ better key ranks held ws y
      have same : ∀ ws ws' : List α, ws.Perm ws' → select better held ws' ∈ held :: ws := by
        intro ws ws' same
        exact (same.cons held).mem_iff.mpr (select_mem better held ws')
      exact le_antisymm (least ys _ (same ys zs (perm.trans perm'.symm)))
        (least zs _ (same zs ys (perm'.trans perm.symm)))
    have best : ∀ ws, ws.Perm xs → Best better xs (select better held ws) := by
      intro ws same y member
      exact select_best ranks held ws y (mem_cons_of_mem held (same.mem_iff.mpr member))
    have inside : ∀ ws, ws.Perm xs → better (select better held ws) held = true →
        select better held ws ∈ xs := by
      intro ws same takes
      rcases mem_cons.mp (select_mem better held ws) with kept | member
      · rw [kept, ranks] at takes
        exact absurd takes (lt_irrefl _)
      · exact same.mem_iff.mp member
    cases select_beats (ranks_strict ranks) held ys with
    | inl kept =>
      cases select_beats (ranks_strict ranks) held zs with
      | inl kept' => rw [kept, kept']
      | inr takes' =>
        rw [ranks, ← level, kept] at takes'
        exact absurd takes' (lt_irrefl _)
    | inr takes =>
      have takes' : better (select better held zs) held = true := by
        rw [ranks] at takes ⊢
        rwa [← level]
      exact agree _ (inside ys perm takes) _ (inside zs perm' takes') takes takes' (best ys perm)
        (best zs perm')

end Held

end Selection
