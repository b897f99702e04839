import Mathlib.Data.List.Dedup
import Mathlib.Data.List.Perm.Basic

/- The first element of every key, in order: what a loop with a set of seen keys keeps. -/
namespace Firsts
open List
variable {α κ κ' : Type} [DecidableEq κ] [DecidableEq κ'] {key : α → κ} {key' : α → κ'}
variable {kept xs : List α}

def firsts (key : α → κ) (kept : List α) : List α → List α
  | [] => kept
  | x :: rest =>
    if key x ∈ kept.map key then firsts key kept rest else firsts key (kept ++ [x]) rest

theorem firsts_extends (kept xs : List α) :
    ∃ more, firsts key kept xs = kept ++ more ∧ more.Sublist xs := by
  induction xs generalizing kept with
  | nil => exact ⟨[], by rw [firsts, append_nil], List.Sublist.refl []⟩
  | cons x rest ih =>
    rw [firsts]
    by_cases seen : key x ∈ kept.map key
    · rw [if_pos seen]
      obtain ⟨more, same, inside⟩ := ih kept
      exact ⟨more, same, inside.cons x⟩
    · rw [if_neg seen]
      obtain ⟨more, same, inside⟩ := ih (kept ++ [x])
      exact ⟨x :: more, by rw [same, append_assoc, singleton_append], inside.cons_cons x⟩

theorem firsts_mem {xs : List α} {x : α} (member : x ∈ firsts key [] xs) : x ∈ xs := by
  obtain ⟨more, same, inside⟩ := (firsts_extends [] xs : ∃ more, firsts key [] xs = _ ∧ _)
  rw [same, nil_append] at member
  exact inside.subset member

theorem firsts_kept {x : α} (member : x ∈ kept) : x ∈ firsts key kept xs := by
  obtain ⟨more, same, _⟩ := (firsts_extends kept xs : ∃ more, firsts key kept xs = _ ∧ _)
  rw [same]
  exact mem_append_left more member

theorem firsts_covers (kept : List α) {xs : List α} {x : α} (member : x ∈ xs) :
    ∃ y ∈ firsts key kept xs, key y = key x := by
  induction xs generalizing kept with
  | nil => exact absurd member not_mem_nil
  | cons first rest ih =>
    rw [firsts]
    by_cases seen : key first ∈ kept.map key
    · rw [if_pos seen]
      rcases mem_cons.mp member with rfl | later
      · obtain ⟨y, held, same⟩ := mem_map.mp seen
        exact ⟨y, firsts_kept held, same⟩
      · exact ih kept later
    · rw [if_neg seen]
      rcases mem_cons.mp member with rfl | later
      · exact ⟨x, firsts_kept (mem_append_right kept mem_cons_self), rfl⟩
      · exact ih (kept ++ [first]) later

theorem firsts_id_iff [DecidableEq α] {xs : List α} {x : α} : x ∈ firsts id [] xs ↔ x ∈ xs := by
  refine ⟨firsts_mem, fun member => ?_⟩
  obtain ⟨y, held, rfl⟩ : ∃ y ∈ firsts id [] xs, y = x := firsts_covers [] member
  exact held

theorem firsts_nodup {kept : List α} (distinct : (kept.map key).Nodup) (xs : List α) :
    ((firsts key kept xs).map key).Nodup := by
  induction xs generalizing kept with
  | nil => exact distinct
  | cons x rest ih =>
    rw [firsts]
    by_cases seen : key x ∈ kept.map key
    · rw [if_pos seen]
      exact ih distinct
    · rw [if_neg seen]
      apply ih
      rw [map_append, nodup_append]
      refine ⟨distinct, nodup_singleton _, ?_⟩
      intro a held b single
      rw [map_singleton, mem_singleton] at single
      intro same
      exact seen (single ▸ same ▸ held)

/-- Beyond what was kept, an element is kept where it is the first of its key. -/
theorem mem_firsts_iff {x : α} : x ∈ firsts key kept xs ↔
    x ∈ kept ∨ key x ∉ kept.map key ∧ (xs.find? fun y => key y = key x) = some x := by
  induction xs generalizing kept with
  | nil => simp [firsts]
  | cons y rest ih =>
    rw [firsts]
    by_cases seen : key y ∈ kept.map key
    · rw [if_pos seen, ih]
      apply or_congr_right
      apply and_congr_right
      intro new
      have other : key y ≠ key x := fun same => new (same ▸ seen)
      rw [find?_cons_of_neg (by simpa using other)]
    · rw [if_neg seen, ih]
      by_cases same : key y = key x
      · rw [find?_cons_of_pos (by simpa using same)]
        simp [← same, seen, or_comm, eq_comm]
      · have other : x ≠ y := fun equal => same (equal ▸ rfl)
        rw [find?_cons_of_neg (by simpa using same)]
        simp [other, Ne.symm same]

/-- As many are kept as there are keys. -/
theorem firsts_length (xs : List α) : (firsts key [] xs).length = (xs.map key).dedup.length := by
  have start : (([] : List α).map key).Nodup := nodup_nil
  have same : ((firsts key [] xs).map key).Perm (xs.map key).dedup := by
    rw [perm_ext_iff_of_nodup (firsts_nodup start xs) (nodup_dedup _)]
    intro k
    rw [mem_dedup, mem_map, mem_map]
    constructor
    · rintro ⟨x, member, rfl⟩
      exact ⟨x, firsts_mem member, rfl⟩
    · rintro ⟨x, member, rfl⟩
      exact firsts_covers [] member
  have length := same.length_eq
  rwa [length_map] at length

theorem firsts_congr (alike : ∀ x ∈ kept ++ xs, ∀ y ∈ kept ++ xs, key x = key y ↔ key' x = key' y) :
    firsts key kept xs = firsts key' kept xs := by
  induction xs generalizing kept with
  | nil => rfl
  | cons x rest ih =>
    have seen : key x ∈ kept.map key ↔ key' x ∈ kept.map key' := by
      rw [mem_map, mem_map]
      refine exists_congr fun y => and_congr_right fun held => ?_
      exact alike y (by simp [held]) x (by simp)
    rw [firsts, firsts]
    by_cases known : key x ∈ kept.map key
    · rw [if_pos known, if_pos (seen.mp known)]
      apply ih
      intro y first z second
      exact alike y (by grind) z (by grind)
    · rw [if_neg known, if_neg (seen.not.mp known)]
      apply ih
      intro y first z second
      exact alike y (by grind) z (by grind)

end Firsts
