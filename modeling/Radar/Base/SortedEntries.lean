import Mathlib.Data.List.Sort

/- A finite map as the list of its entries in the order of their keys, so that two maps are the same
   exactly when they are the same list. -/
namespace SortedEntries
open List
variable {κ α : Type} [LinearOrder κ] {entries : List (κ × α)} {key : κ}

def Sorted (entries : List (κ × α)) : Prop := entries.Pairwise fun a b => a.1 < b.1

def find (key : κ) : List (κ × α) → Option α
  | [] => none
  | (name, value) :: rest => if key = name then some value else find key rest

/-- An entry set, in the place of the one of its key if there is one. -/
def put (key : κ) (value : α) : List (κ × α) → List (κ × α)
  | [] => [(key, value)]
  | (name, old) :: rest =>
    if key < name then (key, value) :: (name, old) :: rest
    else if key = name then (key, value) :: rest
    else (name, old) :: put key value rest

/-- What stands at a key changed, everything else left. -/
def change (key : κ) (f : α → α) (entries : List (κ × α)) : List (κ × α) :=
  entries.map fun entry => (entry.1, if entry.1 = key then f entry.2 else entry.2)

/-- Every entry's value rewritten or its entry dropped. -/
def trim (f : α → Option α) (entries : List (κ × α)) : List (κ × α) :=
  entries.filterMap fun entry => (f entry.2).map (Prod.mk entry.1)

section Find

@[simp] theorem find_nil (key : κ) : find key ([] : List (κ × α)) = none := rfl

theorem find_cons (key name : κ) (value : α) (rest : List (κ × α)) :
    find key ((name, value) :: rest) = if key = name then some value else find key rest := rfl

theorem find_absent (absent : ∀ e ∈ entries, key ≠ e.1) : find key entries = none := by
  induction entries with
  | nil => rfl
  | cons entry rest ih =>
    obtain ⟨first, later⟩ := forall_mem_cons.mp absent
    rw [find_cons, if_neg first, ih later]

theorem find_mem {value : α} (there : find key entries = some value) : (key, value) ∈ entries := by
  induction entries with
  | nil => cases there
  | cons entry rest ih =>
    obtain ⟨name, first⟩ := entry
    rw [find_cons] at there
    by_cases here : key = name
    · rw [if_pos here, Option.some.injEq] at there
      rw [here, there]
      exact mem_cons_self
    · rw [if_neg here] at there
      exact mem_cons_of_mem _ (ih there)

theorem sorted_find (sorted : Sorted entries) {value : α}
    (member : (key, value) ∈ entries) : find key entries = some value := by
  induction entries with
  | nil => exact absurd member not_mem_nil
  | cons entry rest ih =>
    obtain ⟨name, first⟩ := entry
    obtain ⟨before, behind⟩ := pairwise_cons.mp sorted
    rcases mem_cons.mp member with same | later
    · obtain ⟨rfl, rfl⟩ := Prod.mk.inj same
      rw [find_cons, if_pos rfl]
    · have other : key ≠ name := ne_of_gt (before _ later)
      rw [find_cons, if_neg other, ih behind later]

/-- Sorted entries are known from what stands at each key. -/
theorem entries_ext {a b : List (κ × α)} (sorted : Sorted a) (sorted' : Sorted b)
    (same : ∀ key, find key a = find key b) : a = b := by
  have members : ∀ entry, entry ∈ a ↔ entry ∈ b := by
    rintro ⟨key, value⟩
    constructor
    · intro member
      exact find_mem ((same key).symm.trans (sorted_find sorted member))
    · intro member
      exact find_mem ((same key).trans (sorted_find sorted' member))
  have distinct : ∀ {entries : List (κ × α)}, Sorted entries → entries.Nodup := by
    intro entries ordered
    exact ordered.imp fun before same => absurd (congrArg Prod.fst same) (ne_of_lt before)
  have perm := (perm_ext_iff_of_nodup (distinct sorted) (distinct sorted')).mpr members
  exact perm.eq_of_pairwise (fun x y _ _ before after => absurd before (lt_asymm after)) sorted sorted'

end Find

section Put

theorem put_mem {value : α} {entry : κ × α}
    (member : entry ∈ put key value entries) : entry = (key, value) ∨ entry ∈ entries := by
  induction entries with
  | nil => exact Or.inl (mem_singleton.mp member)
  | cons first rest ih =>
    obtain ⟨name, old⟩ := first
    rw [put] at member
    split at member
    · exact mem_cons.mp member
    · split at member
      · exact (mem_cons.mp member).imp_right (mem_cons_of_mem _)
      · rcases mem_cons.mp member with same | later
        · exact Or.inr (same ▸ mem_cons_self)
        · exact (ih later).imp_right (mem_cons_of_mem _)

theorem put_sorted (sorted : Sorted entries) (key : κ) (value : α) : Sorted (put key value entries) := by
  induction entries with
  | nil => exact pairwise_singleton _ _
  | cons first rest ih =>
    obtain ⟨name, old⟩ := first
    obtain ⟨before, behind⟩ := pairwise_cons.mp sorted
    rw [put]
    by_cases smaller : key < name
    · rw [if_pos smaller]
      refine pairwise_cons.mpr ⟨?_, sorted⟩
      intro entry member
      rcases mem_cons.mp member with rfl | later
      · exact smaller
      · exact lt_trans smaller (before entry later)
    · rw [if_neg smaller]
      by_cases here : key = name
      · rw [if_pos here]
        exact pairwise_cons.mpr ⟨here ▸ before, behind⟩
      · rw [if_neg here]
        have larger : name < key := lt_of_le_of_ne (not_lt.mp smaller) (Ne.symm here)
        refine pairwise_cons.mpr ⟨?_, ih behind⟩
        intro entry member
        rcases put_mem member with rfl | old
        · exact larger
        · exact before entry old

theorem find_put (key other : κ) (value : α) (entries : List (κ × α)) :
    find other (put key value entries) = if other = key then some value else find other entries := by
  induction entries with
  | nil => rfl
  | cons first rest ih =>
    obtain ⟨name, old⟩ := first
    rw [put]
    by_cases smaller : key < name
    · rw [if_pos smaller, find_cons]
    · rw [if_neg smaller]
      by_cases here : key = name
      · subst here
        rw [if_pos rfl, find_cons, find_cons]
        by_cases own : other = key
        · rw [if_pos own, if_pos own]
        · rw [if_neg own, if_neg own, if_neg own]
      · rw [if_neg here, find_cons, find_cons, ih]
        by_cases own : other = name
        · rw [if_pos own, if_neg (fun same => here (same.symm.trans own)), if_pos own]
        · rw [if_neg own, if_neg own]

end Put

section Rewriting

theorem change_sorted (sorted : Sorted entries) (key : κ) (f : α → α) :
    Sorted (change key f entries) := pairwise_map.mpr sorted

theorem find_change (key other : κ) (f : α → α) (entries : List (κ × α)) :
    find other (change key f entries) =
      (find other entries).map fun value => if other = key then f value else value := by
  induction entries with
  | nil => rfl
  | cons entry rest ih =>
    obtain ⟨name, value⟩ := entry
    rw [change, map_cons, find_cons, find_cons]
    by_cases here : other = name
    · subst here
      rw [if_pos rfl, if_pos rfl]
      rfl
    · rw [if_neg here, if_neg here]
      exact ih

omit [LinearOrder κ] in
theorem trim_cons (f : α → Option α) (name : κ) (value : α) (rest : List (κ × α)) :
    trim f ((name, value) :: rest) = ((f value).map (Prod.mk name)).toList ++ trim f rest := by
  cases made : f value with
  | none => exact filterMap_cons_none (by simp [made])
  | some kept => exact filterMap_cons_some (by simp [made])

omit [LinearOrder κ] in
theorem trim_mem {f : α → Option α} {entry : κ × α}
    (member : entry ∈ trim f entries) : ∃ value, (entry.1, value) ∈ entries ∧ f value = some entry.2 := by
  obtain ⟨old, there, made⟩ := mem_filterMap.mp member
  obtain ⟨value, kept, rfl⟩ := Option.map_eq_some_iff.mp made
  exact ⟨old.2, there, kept⟩

theorem trim_sorted (sorted : Sorted entries) (f : α → Option α) : Sorted (trim f entries) := by
  refine List.Pairwise.filterMap _ ?_ sorted
  intro a b before a' made b' made'
  obtain ⟨value, _, rfl⟩ := Option.map_eq_some_iff.mp made
  obtain ⟨value', _, rfl⟩ := Option.map_eq_some_iff.mp made'
  exact before

theorem find_trim (sorted : Sorted entries) (f : α → Option α) (key : κ) :
    find key (trim f entries) = (find key entries).bind f := by
  induction entries with
  | nil => rfl
  | cons entry rest ih =>
    obtain ⟨name, value⟩ := entry
    obtain ⟨before, behind⟩ := pairwise_cons.mp sorted
    rw [trim_cons, find_cons]
    by_cases here : key = name
    · subst here
      have gone : find key (trim f rest) = none := by
        apply find_absent
        intro entry member
        obtain ⟨old, there, _⟩ := trim_mem member
        exact ne_of_lt (before (entry.1, old) there)
      cases made : f value with
      | none => simpa [made] using gone
      | some kept => simp [made, find_cons]
    · rw [if_neg here, ← ih behind]
      cases made : f value with
      | none => rfl
      | some kept => simp [find_cons, here]

end Rewriting

end SortedEntries
