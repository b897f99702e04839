import Mathlib.Order.Lattice

/- Runs with a bound on their turns, without a result where the bound is too low. -/
namespace Fuelled
variable {α β : Type} {second : Nat → α → Option β}

/-- A higher bound changes no result. -/
def Steady (run : Nat → Option α) : Prop := ∀ n m value, n ≤ m → run n = some value → run m = some value

/-- Some bound is high enough, and this is the result. -/
def Gives (run : Nat → Option α) (value : α) : Prop := ∃ n, run n = some value

theorem steady_some (value : α) : Steady fun _ => some value := fun _ _ _ _ same => same

theorem gives_some {value result : α} : Gives (fun _ => some value) result ↔ value = result := by
  simp [Gives]

theorem steady_bind {first : Nat → Option α} (steady : Steady first)
    (steady' : ∀ value, Steady fun n => second n value) :
    Steady fun n => (first n).bind (second n) := by
  intro n m result bound run
  obtain ⟨value, run, run'⟩ := Option.bind_eq_some_iff.mp run
  exact Option.bind_eq_some_iff.mpr ⟨value, steady n m value bound run, steady' value n m result bound run'⟩

theorem gives_bind {first : Nat → Option α} (steady : Steady first)
    (steady' : ∀ value, Steady fun n => second n value) {result : β} :
    Gives (fun n => (first n).bind (second n)) result ↔
      ∃ value, Gives first value ∧ Gives (fun n => second n value) result := by
  constructor
  · rintro ⟨n, run⟩
    obtain ⟨value, run, run'⟩ := Option.bind_eq_some_iff.mp run
    exact ⟨value, ⟨n, run⟩, n, run'⟩
  · rintro ⟨value, ⟨n, run⟩, m, run'⟩
    refine ⟨max n m, Option.bind_eq_some_iff.mpr ⟨value, ?_, ?_⟩⟩
    · exact steady n _ value (Nat.le_max_left n m) run
    · exact steady' value m _ result (Nat.le_max_right n m) run'

/-- A loop is steady where each turn either ends it alike under every bound or goes on with one less. -/
theorem steady_loop {σ : Type} {run : Nat → σ → Option α} (start : ∀ s, run 0 s = none)
    (turn : ∀ s, (∃ value, ∀ n, run (n + 1) s = some value) ∨ ∃ s', ∀ n, run (n + 1) s = run n s')
    (s : σ) : Steady fun n => run n s := by
  intro n m value bound
  induction n generalizing m s with
  | zero =>
    intro found
    exact absurd (found.symm.trans (start s)) (by simp)
  | succ n ih =>
    obtain ⟨m, rfl⟩ := Nat.exists_eq_add_of_le' (Nat.lt_of_lt_of_le (Nat.succ_pos n) bound)
    rcases turn s with ⟨value', ends⟩ | ⟨s', goes⟩
    · simp only [ends, imp_self]
    · simp only [goes]
      exact ih s' m (by omega)

/-- What a turn gives: its own result, or what the rest of the loop gives. -/
theorem gives_turn {σ : Type} {run : Nat → σ → Option α} (start : ∀ s, run 0 s = none) {s s' : σ}
    (goes : ∀ n, run (n + 1) s = run n s') {value : α} :
    Gives (fun n => run n s) value ↔ Gives (fun n => run n s') value := by
  constructor
  · rintro ⟨n, found⟩
    cases n with
    | zero => exact absurd (found.symm.trans (start s)) (by simp)
    | succ n => exact ⟨n, (goes n).symm.trans found⟩
  · rintro ⟨n, found⟩
    exact ⟨n + 1, (goes n).trans found⟩

theorem gives_end {σ : Type} {run : Nat → σ → Option α} (start : ∀ s, run 0 s = none) {s : σ} {result : α}
    (ends : ∀ n, run (n + 1) s = some result) {value : α} :
    Gives (fun n => run n s) value ↔ result = value := by
  constructor
  · rintro ⟨n, found⟩
    cases n with
    | zero => exact absurd (found.symm.trans (start s)) (by simp)
    | succ n => exact Option.some.inj ((ends n).symm.trans found)
  · rintro rfl
    exact ⟨1, ends 0⟩

end Fuelled
