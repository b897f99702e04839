import Radar.Base.Runs

/- Passes over a list, each of which takes up what is ready by then and leaves the rest to the next,
   until a pass takes nothing. -/
namespace Sweep
open Runs
variable {σ α : Type} (take : σ → α → Option σ)

/-- What a pass ends with: the state, what it left in order, and how much it took. -/
structure Pass (σ α : Type) where
  state : σ
  left : List α
  added : Nat

def pass : σ → List α → Pass σ α
  | s, [] => ⟨s, [], 0⟩
  | s, x :: rest => match take s x with
    | some t => { pass t rest with added := (pass t rest).added + 1 }
    | none => { pass s rest with left := x :: (pass s rest).left }

/-- The passes one after the other, `none` where more would have been needed. -/
def passes : Nat → σ → List α → Option (Pass σ α)
  | 0, _, _ => none
  | n + 1, s, xs =>
    if (pass take s xs).added = 0 then some (pass take s xs)
    else passes n (pass take s xs).state (pass take s xs).left

variable {take} {xs : List α}

theorem pass_taken {s t : σ} {x : α} (taken : take s x = some t) (rest : List α) :
    pass take s (x :: rest) = { pass take t rest with added := (pass take t rest).added + 1 } := by
  rw [pass, taken]

theorem pass_left {s : σ} {x : α} (left : take s x = none) (rest : List α) :
    pass take s (x :: rest) = { pass take s rest with left := x :: (pass take s rest).left } := by
  rw [pass, left]

section One

/-- A pass is a run over what it takes; with what it leaves this is the whole list. -/
theorem pass_run (s : σ) (xs : List α) : ∃ taken, exec take s taken = some (pass take s xs).state ∧
    (taken ++ (pass take s xs).left).Perm xs ∧ taken.length = (pass take s xs).added := by
  induction xs generalizing s with
  | nil => exact ⟨[], rfl, List.Perm.refl _, rfl⟩
  | cons x rest ih =>
    cases step : take s x with
    | some t =>
      obtain ⟨taken, run, whole, count⟩ := ih t
      rw [pass_taken step]
      refine ⟨x :: taken, ?_, whole.cons x, congrArg (· + 1) count⟩
      rw [exec, step]
      exact run
    | none =>
      obtain ⟨taken, run, whole, count⟩ := ih s
      rw [pass_left step]
      exact ⟨taken, run, List.perm_middle.trans (whole.cons x), count⟩

/-- A pass that takes nothing leaves all there is, as nothing of it is ready. -/
theorem pass_idle {s : σ} (idle : (pass take s xs).added = 0) :
    (pass take s xs).state = s ∧ (pass take s xs).left = xs ∧ ∀ x ∈ xs, take s x = none := by
  induction xs with
  | nil => exact ⟨rfl, rfl, fun x member => absurd member List.not_mem_nil⟩
  | cons x rest ih =>
    cases step : take s x with
    | some t =>
      rw [pass_taken step] at idle
      exact absurd idle (Nat.succ_ne_zero _)
    | none =>
      rw [pass_left step] at idle ⊢
      obtain ⟨same, all, unready⟩ := ih idle
      exact ⟨same, congrArg (x :: ·) all, List.forall_mem_cons.mpr ⟨step, unready⟩⟩

theorem pass_length (s : σ) (xs : List α) :
    (pass take s xs).left.length + (pass take s xs).added = xs.length := by
  obtain ⟨taken, _, whole, count⟩ := @pass_run _ _ take s xs
  have lengths := whole.length_eq
  rw [List.length_append] at lengths
  omega

/-- What can be taken in order at the front of a list is taken in order. -/
theorem pass_front {s t : σ} {front : List α} (run : exec take s front = some t) (rest : List α) :
    pass take s (front ++ rest) =
      { pass take t rest with added := (pass take t rest).added + front.length } := by
  induction front generalizing s with
  | nil =>
    cases run
    rfl
  | cons x more ih =>
    obtain ⟨u, first, later⟩ := exec_cons run
    rw [List.cons_append, pass_taken first, ih later]
    rfl

end One

section All

/-- The passes stop: each but the last takes something. -/
theorem passes_stop {n : Nat} {s : σ} (enough : xs.length < n) : ∃ p, passes take n s xs = some p := by
  induction n generalizing s xs with
  | zero => exact absurd enough (Nat.not_lt_zero _)
  | succ n ih =>
    rw [passes]
    by_cases idle : (pass take s xs).added = 0
    · rw [if_pos idle]
      exact ⟨_, rfl⟩
    · rw [if_neg idle]
      have lengths := @pass_length _ _ take s xs
      exact ih (by omega)

/-- The passes are a run over what they take, after which nothing that is left is ready. -/
theorem passes_run {n : Nat} {s : σ} {p : Pass σ α}
    (stopped : passes take n s xs = some p) : ∃ taken, exec take s taken = some p.state ∧
      (taken ++ p.left).Perm xs ∧ ∀ x ∈ p.left, take p.state x = none := by
  induction n generalizing s xs with
  | zero => cases stopped
  | succ n ih =>
    rw [passes] at stopped
    by_cases idle : (pass take s xs).added = 0
    · rw [if_pos idle, Option.some.injEq] at stopped
      subst stopped
      obtain ⟨same, all, unready⟩ := pass_idle idle
      rw [same, all]
      exact ⟨[], rfl, List.Perm.refl _, unready⟩
    · rw [if_neg idle] at stopped
      obtain ⟨first, run, whole, _⟩ := @pass_run _ _ take s xs
      obtain ⟨later, run', whole', unready⟩ := ih stopped
      refine ⟨first ++ later, ?_, ?_, unready⟩
      · rw [exec_append run, run']
      · rw [List.append_assoc]
        exact (whole'.append_left first).trans whole

/-- The same where the list begins with what can be taken in order: the run begins with it. -/
theorem passes_front {n : Nat} {s t : σ} {front rest : List α} {p : Pass σ α}
    (run : exec take s front = some t) (stopped : passes take n s (front ++ rest) = some p) :
    ∃ more, exec take t more = some p.state ∧ (more ++ p.left).Perm rest ∧
      ∀ x ∈ p.left, take p.state x = none := by
  cases n with
  | zero => cases stopped
  | succ n =>
    rw [passes, pass_front run rest] at stopped
    by_cases idle : (pass take t rest).added + front.length = 0
    · rw [if_pos idle, Option.some.injEq] at stopped
      subst stopped
      obtain ⟨same, all, unready⟩ := pass_idle (Nat.eq_zero_of_add_eq_zero_right idle)
      exact ⟨[], by rw [same]; rfl, by rw [all]; exact List.Perm.refl _, by rwa [same, all]⟩
    · rw [if_neg idle] at stopped
      obtain ⟨first, run', whole, _⟩ := @pass_run _ _ take t rest
      obtain ⟨later, run'', whole', unready⟩ := passes_run stopped
      refine ⟨first ++ later, ?_, ?_, unready⟩
      · rw [exec_append run', run'']
      · rw [List.append_assoc]
        exact (whole'.append_left first).trans whole

end All

end Sweep
