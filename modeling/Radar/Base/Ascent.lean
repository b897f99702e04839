import Mathlib.Dynamics.PeriodicPts.Defs

/- Going up a partial map step by step: a path ends, comes back to where it began, or does neither. -/
namespace Ascent
open Function
variable {α : Type} {up : α → Option α} {x y z : α} {m n : Nat} {n : Nat}

def rise (up : α → Option α) (o : Option α) : Option α := o.bind up

/-- Where so many steps lead, `none` past the end. -/
def hop (up : α → Option α) (n : Nat) (x : α) : Option α := (rise up)^[n] (some x)

@[simp] theorem hop_zero (x : α) : hop up 0 x = some x := rfl

theorem hop_succ (n : Nat) (x : α) : hop up (n + 1) x = (hop up n x).bind up :=
  iterate_succ_apply' (rise up) n (some x)

theorem hop_add (m n : Nat) (at_ : hop up m x = some y) : hop up (n + m) x = hop up n y := by
  rw [hop, iterate_add_apply]
  exact congrArg (rise up)^[n] at_

theorem hop_up (n : Nat) (step : up x = some y) : hop up (n + 1) x = hop up n y := hop_add 1 n step

theorem none_fixed : IsFixedPt (rise up) none := rfl

theorem hop_none_later (gone : hop up m x = none) (later : m ≤ n) : hop up n x = none := by
  obtain ⟨more, rfl⟩ := Nat.exists_eq_add_of_le' later
  rw [hop, iterate_add_apply]
  exact (congrArg (rise up)^[more] gone).trans (none_fixed.iterate more)

theorem hop_some_before (there : hop up n x = some y) (before : m ≤ n) : ∃ z, hop up m x = some z := by
  cases found : hop up m x with
  | some z => exact ⟨z, rfl⟩
  | none =>
    rw [hop_none_later found before] at there
    cases there

/-- The path from x ends at y after so many steps. -/
def Ends (up : α → Option α) (x : α) (n : Nat) (y : α) : Prop := hop up n x = some y ∧ up y = none

theorem ends_next (ends : Ends up x n y) : hop up (n + 1) x = none := by
  rw [hop_succ, ends.1]
  exact ends.2

theorem ends_after (ends : Ends up x n y) (there : hop up m x = some z) : m ≤ n := by
  by_contra beyond
  rw [hop_none_later (ends_next ends) (by omega)] at there
  cases there

/-- A path has one end. -/
theorem ends_unique (one : Ends up x m z) (other : Ends up x n y) : m = n ∧ z = y := by
  have level : m = n := le_antisymm (ends_after other one.1) (ends_after one other.1)
  have here := one.1
  rw [level, other.1] at here
  cases here
  exact ⟨level, rfl⟩

/-- A path comes back to x after so many steps. -/
def Returns (up : α → Option α) (x : α) (n : Nat) : Prop := 0 < n ∧ hop up n x = some x

theorem returns_periodic (returns : Returns up x n) : some x ∈ periodicPts (rise up) :=
  mk_mem_periodicPts returns.1 returns.2

/-- A path that comes back has no end. -/
theorem returns_alive (returns : Returns up x n) (m : Nat) : hop up m x ≠ none := by
  intro gone
  have whole : hop up (m * n) x = some x := IsPeriodicPt.const_mul returns.2 m
  have later : m ≤ m * n := Nat.le_mul_of_pos_right m returns.1
  rw [hop_none_later gone later] at whole
  cases whole

/-- A path that ends passes each of its points once. -/
theorem ends_apart {n i j : Nat} (ends : Ends up x n y) (order : i < j) (inside : j ≤ n) :
    hop up i x ≠ hop up j x := by
  intro same
  obtain ⟨z, there⟩ := hop_some_before ends.1 inside
  have around : Returns up z (j - i) := by
    refine ⟨Nat.sub_pos_of_lt order, ?_⟩
    have first : hop up i x = some z := same.trans there
    rw [← hop_add i (j - i) first, Nat.sub_add_cancel order.le]
    exact there
  have beyond : hop up (n + 1 - j) z = none := by
    rw [← hop_add j (n + 1 - j) there, Nat.sub_add_cancel (by omega)]
    exact ends_next ends
  exact returns_alive around _ beyond

/-- Before a path first comes back it passes each of its points once. -/
theorem returns_apart {i j : Nat} (order : i < j)
    (inside : j < minimalPeriod (rise up) (some x)) : hop up i x ≠ hop up j x := by
  intro same
  have equal := iterate_injOn_Iio_minimalPeriod (order.trans inside) inside same
  omega

/-- The points a path has passed, in order. -/
def Trail (up : α → Option α) (x : α) (chain : List α) : Prop :=
  chain.map some = (List.range chain.length).map fun i => hop up i x

theorem trail_start (x : α) : Trail up x [x] := rfl

theorem trail_step {chain : List α} (trail : Trail up x chain)
    (next : hop up chain.length x = some y) : Trail up x (chain ++ [y]) := by
  rw [Trail, List.map_append, trail, List.length_append, List.length_singleton, List.range_succ,
    List.map_append, List.map_singleton, List.map_singleton, next]

theorem mem_trail {chain : List α} (trail : Trail up x chain) :
    y ∈ chain ↔ ∃ i < chain.length, hop up i x = some y := by
  have inside : y ∈ chain ↔ some y ∈ chain.map some := by simp
  rw [inside, trail, List.mem_map]
  constructor
  · rintro ⟨i, member, here⟩
    exact ⟨i, List.mem_range.mp member, here⟩
  · rintro ⟨i, less, here⟩
    exact ⟨i, List.mem_range.mpr less, here⟩

/-- Whatever point of a closed path one starts at, its points are the same. -/
theorem orbit_shift (returns : Returns up x n) (step : up x = some y) :
    minimalPeriod (rise up) (some y) = minimalPeriod (rise up) (some x) ∧
      ∀ z, (∃ i < minimalPeriod (rise up) (some y), hop up i y = some z) ↔
        ∃ i < minimalPeriod (rise up) (some x), hop up i x = some z := by
  have periodic := returns_periodic returns
  have image : rise up (some x) = some y := step
  have level : minimalPeriod (rise up) (some y) = minimalPeriod (rise up) (some x) := by
    rw [← image]
    exact minimalPeriod_apply periodic
  have positive := minimalPeriod_pos_of_mem_periodicPts periodic
  refine ⟨level, ?_⟩
  intro z
  rw [level]
  constructor
  · rintro ⟨i, less, here⟩
    refine ⟨(i + 1) % minimalPeriod (rise up) (some x), Nat.mod_lt _ positive, ?_⟩
    rw [hop, iterate_mod_minimalPeriod_eq]
    exact (hop_up i step).trans here
  · rintro ⟨i, less, here⟩
    cases i with
    | zero =>
      refine ⟨minimalPeriod (rise up) (some x) - 1, Nat.sub_lt positive Nat.one_pos, ?_⟩
      rw [← hop_up _ step, Nat.sub_add_cancel positive, ← here, hop_zero]
      exact iterate_minimalPeriod
    | succ i => exact ⟨i, Nat.lt_of_succ_lt less, (hop_up i step).symm.trans here⟩

end Ascent
