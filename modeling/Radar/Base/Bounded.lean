import Mathlib.Data.List.Forall2
import Mathlib.Data.List.TakeDrop

/- Collecting items into a list until it holds as many as it may. -/
namespace Bounded
open List
variable {α β : Type} {limit : Nat} {collect : List α → List α}

/-- Of the items it has, a collector adds those there is room for, in order. -/
def Collects (limit : Nat) (collect : List α → List α) (items : List α) : Prop :=
  ∀ held, held.length ≤ limit → collect held = (held ++ items).take limit

/-- One collector after another, and no further once the list is full. -/
def inTurn (limit : Nat) : List (List α → List α) → List α → List α
  | [], held => held
  | collect :: rest, held =>
    if limit ≤ (collect held).length then collect held else inTurn limit rest (collect held)

theorem collects_none : Collects limit (fun held : List α => held) [] := by
  intro held room
  rw [append_nil, take_of_length_le room]

/-- What a list that is full or has taken everything holds does not change by taking on. -/
theorem take_take_append (held items more : List α) :
    ((held ++ items).take limit ++ more).take limit = (held ++ (items ++ more)).take limit := by
  rw [← append_assoc]
  by_cases room : (held ++ items).length ≤ limit
  · rw [take_of_length_le room]
  · have full : limit ≤ ((held ++ items).take limit).length := by
      rw [length_take]
      omega
    rw [take_append_of_le_length full, take_take, Nat.min_self]
    exact (take_append_of_le_length (Nat.le_of_not_le room)).symm

theorem collects_inTurn {collectors : List (List α → List α)} {items : List (List α)}
    (each : List.Forall₂ (Collects limit) collectors items) :
    Collects limit (inTurn limit collectors) items.flatten := by
  induction each with
  | nil => exact collects_none
  | @cons collect mine rest others first _ ih =>
    intro held room
    have step : collect held = (held ++ mine).take limit := first held room
    rw [inTurn, flatten_cons, ← take_take_append, ← step]
    split
    next full =>
      have whole : (collect held).length ≤ limit := by
        rw [step, length_take]
        omega
      rw [take_append_of_le_length full, take_of_length_le whole]
    next less => exact ih (collect held) (Nat.le_of_not_le less)

theorem collects_each {xs : List β} {f : β → List α → List α} {items : β → List α}
    (each : ∀ x ∈ xs, Collects limit (f x) (items x)) :
    Collects limit (inTurn limit (xs.map f)) (xs.flatMap items) := by
  have parts : List.Forall₂ (Collects limit) (xs.map f) (xs.map items) := by
    rw [forall₂_map_left_iff, forall₂_map_right_iff, forall₂_same]
    exact each
  exact collects_inTurn parts

/-- Nothing is all that a collector which changes nothing can collect. -/
theorem collects_still {items : List α} (room : 0 < limit)
    (inner : Collects limit collect items) (still : collect [] = []) : items = [] := by
  have whole : collect [] = ([] ++ items).take limit := inner [] (Nat.zero_le limit)
  rw [still, nil_append, eq_comm, take_eq_nil_iff] at whole
  exact whole.resolve_left (by omega)

theorem append_one {held : List α} (room : held.length < limit) (x : α) :
    held ++ [x] = (held ++ [x]).take limit := by
  rw [take_of_length_le]
  rw [length_append, length_singleton]
  exact room

/-- A collector that first looks whether there is room. -/
theorem collects_guarded {items : List α}
    (inner : ∀ held, held.length < limit → collect held = (held ++ items).take limit) :
    Collects limit (fun held => if limit ≤ held.length then held else collect held) items := by
  intro held room
  show (if limit ≤ held.length then held else collect held) = _
  split
  next full => rw [take_append_of_le_length full, take_of_length_le room]
  next less => exact inner held (Nat.lt_of_not_le less)

/-- What a limit lets through is the front of one list of items, the same for every limit. -/
def Cut (collect : Nat → List α → List α) : Prop := ∃ items, ∀ limit, Collects limit (collect limit) items

theorem cut_inTurn {xs : List β} {f : Nat → β → List α → List α}
    (each : ∀ x ∈ xs, Cut fun limit => f limit x) :
    Cut fun limit => inTurn limit (xs.map (f limit)) := by
  choose! items collects using each
  exact ⟨xs.flatMap items, fun limit => collects_each fun x member => collects x member limit⟩

theorem cut_guarded {collect : Nat → List α → List α} (inner : Cut collect) :
    Cut fun limit held => if limit ≤ held.length then held else collect limit held := by
  obtain ⟨items, collects⟩ := inner
  exact ⟨items, fun limit => collects_guarded fun held room => collects limit held (Nat.le_of_lt room)⟩

theorem cut_one (x : α) : Cut fun limit held => if limit ≤ held.length then held else held ++ [x] :=
  ⟨[x], fun _ => collects_guarded fun _ room => append_one room x⟩

theorem cut_none : Cut fun _ (held : List α) => held := ⟨[], fun _ => collects_none⟩

/-- Lists of one length are cut to the same items whatever stands behind them. -/
theorem take_append_iff {a b rest : List α} (level : a.length = b.length) :
    (a ++ rest).take limit = (b ++ rest).take limit ↔ a.take limit = b.take limit := by
  rw [take_append, take_append, level]
  exact append_left_inj _

theorem take_map_iff {f g : β → α} (keys : List β) :
    (keys.map f).take limit = (keys.map g).take limit ↔ ∀ key ∈ keys.take limit, f key = g key := by
  rw [← map_take, ← map_take]
  exact map_inj_left

end Bounded
