import Mathlib.Data.List.Basic

/- A ring of slots beside the log of everything ever pushed, the newest first: the ring holds the
   front of the log, as much of it as it has slots. -/
namespace RingLog
variable {α : Type} {size head i : Nat}

structure Ring (α : Type) where
  slots : List α
  head : Nat
  count : Nat

/-- The slot written i pushes before the last one. -/
def back (size head i : Nat) : Nat := (head + size - 1 - i) % size

def Ring.push (r : Ring α) (x : α) : Ring α where
  slots := r.slots.set r.head x
  head := (r.head + 1) % r.slots.length
  count := if r.count < r.slots.length then r.count + 1 else r.count

def Ring.recent (r : Ring α) (blank : α) : List α :=
  (List.range r.count).map fun i => r.slots.getD (back r.slots.length r.head i) blank

structure Holds (r : Ring α) (log : List α) : Prop where
  inside : r.head < r.slots.length
  count : r.count = min log.length r.slots.length
  slot : ∀ i, i < r.count → r.slots[back r.slots.length r.head i]? = log[i]?

theorem next_head {size head : Nat} (inside : head < size) :
    (head + 1) % size = if head + 1 = size then 0 else head + 1 := by
  by_cases wraps : head + 1 = size
  · rw [if_pos wraps, wraps, Nat.mod_self]
  · rw [if_neg wraps, Nat.mod_eq_of_lt (by omega)]

theorem back_eq (inside : head < size) (recent : i < size) :
    back size head i = if i < head then head - 1 - i else head + size - 1 - i := by
  unfold back
  by_cases low : i < head
  · have shift : head + size - 1 - i = (head - 1 - i) + size := by omega
    rw [if_pos low, shift, Nat.add_mod_right, Nat.mod_eq_of_lt (by omega)]
  · rw [if_neg low, Nat.mod_eq_of_lt (by omega)]

/-- Right after a push the slot written last is the old head. -/
theorem back_zero {size head : Nat} (inside : head < size) : back size ((head + 1) % size) 0 = head := by
  have next := next_head inside
  rw [back_eq (Nat.mod_lt _ (by omega)) (by omega), next]
  split <;> split <;> omega

/-- Every other slot is one push further back. -/
theorem back_succ (inside : head < size) (recent : i + 1 < size) :
    back size ((head + 1) % size) (i + 1) = back size head i := by
  have next := next_head inside
  rw [back_eq (Nat.mod_lt _ (by omega)) recent, back_eq inside (by omega), next]
  split <;> split <;> split <;> omega

theorem back_ne_head (inside : head < size) (recent : i + 1 < size) : back size head i ≠ head := by
  rw [back_eq inside (by omega)]
  split <;> omega

theorem holds_empty (slots : List α) (some : 0 < slots.length) : Holds ⟨slots, 0, 0⟩ [] := by
  refine ⟨some, by simp, ?_⟩
  intro i impossible
  exact absurd impossible (Nat.not_lt_zero i)

theorem holds_push {r : Ring α} {log : List α} (holds : Holds r log) (x : α) :
    Holds (r.push x) (x :: log) := by
  have inside := holds.inside
  have count := holds.count
  have size : (r.push x).slots.length = r.slots.length := by simp [Ring.push]
  constructor
  · rw [size]
    exact Nat.mod_lt _ (by omega)
  · rw [size]
    simp only [Ring.push, List.length_cons]
    split <;> omega
  · intro i recent
    have bound : i < r.slots.length := by
      simp only [Ring.push] at recent
      split at recent <;> omega
    rw [size]
    cases i with
    | zero =>
      simp only [Ring.push, back_zero inside, List.getElem?_set_self inside, List.getElem?_cons_zero]
    | succ j =>
      have older : j < r.count := by
        simp only [Ring.push] at recent
        split at recent <;> omega
      have apart := back_ne_head inside bound
      simp only [Ring.push, back_succ inside bound, List.getElem?_cons_succ]
      rw [List.getElem?_set_ne (Ne.symm apart)]
      exact holds.slot j older

/-- What the ring holds is the newest part of the log, in its order. -/
theorem recent_eq {r : Ring α} {log : List α} (holds : Holds r log) (blank : α) :
    r.recent blank = log.take r.slots.length := by
  have count := holds.count
  apply List.ext_getElem?
  intro i
  by_cases recent : i < r.count
  · have slot := holds.slot i recent
    have present : i < log.length := by omega
    rw [List.getElem?_take_of_lt (by omega)]
    simp only [Ring.recent, List.getElem?_map, List.getElem?_range recent, Option.map_some,
      List.getD_eq_getElem?_getD, slot, List.getElem?_eq_getElem present, Option.getD_some]
  · rw [List.getElem?_eq_none (by simpa [Ring.recent] using recent),
      List.getElem?_eq_none (by rw [List.length_take]; omega)]

end RingLog
