import Radar.Base.JsonTree

/- JSON objects as records: written from fields that may be left out, and read by key with a type
   assertion on what is found. -/
namespace JsonRecord
open JsonTree

section Reading

/-- m[key].(map[string]any). -/
def objectAt (m : Entries) (key : String) : Option Entries := match field m key with
  | some (.object entries) => some entries
  | _ => none

def stringAt (m : Entries) (key : String) : String := match field m key with
  | some (.string text) => text
  | _ => ""

/-- The elements of a list that are objects: a loop passes over the others. -/
def objects (elements : List Value) : List Entries := elements.filterMap fun
    | .object entries => some entries
    | _ => none

def objectsAt (m : Entries) (key : String) : List Entries := match field m key with
  | some (.array elements) => objects elements
  | _ => []

/-- What stands under one more key. -/
theorem nested_concat (value : Value) (path : List String) (key : String) :
    nested value (path ++ [key]) = (nested value path).bind fun inner => nested inner [key] := by
  induction path generalizing value with
  | nil => rfl
  | cons first rest ih =>
    cases value with
    | object entries =>
      rw [List.cons_append, nested, nested]
      cases field entries first with
      | none => rfl
      | some inner => exact ih inner
    | null => rfl
    | bool b => rfl
    | integer n => rfl
    | float q => rfl
    | string text => rfl
    | array elements => rfl

end Reading

section Writing
variable {α : Type} {fields : List (String × Option Value)} {key : String} {f : α → Entries}

def record (fields : List (String × Option Value)) : Entries :=
  fields.filterMap fun (key, value) => value.map (Prod.mk key)

def written (f : α → Entries) (xs : List α) : Value := .array (xs.map fun x => .object (f x))

/-- A list that is left out where it is empty. -/
def listed (f : α → Entries) (xs : List α) : Option Value :=
  if xs.isEmpty then none else some (written f xs)

theorem record_keys (fields : List (String × Option Value)) :
    (record fields).map Prod.fst ⊆ fields.map Prod.fst := by
  induction fields with
  | nil => exact List.Subset.refl _
  | cons entry rest ih =>
    obtain ⟨name, value⟩ := entry
    cases value with
    | none => exact List.subset_cons_of_subset name ih
    | some value => exact List.cons_subset_cons name ih

theorem field_record (distinct : (fields.map Prod.fst).Nodup) {value : Option Value}
    (member : (key, value) ∈ fields) : field (record fields) key = value := by
  induction fields with
  | nil => exact absurd member List.not_mem_nil
  | cons entry rest ih =>
    obtain ⟨name, first⟩ := entry
    rw [List.map_cons, List.nodup_cons] at distinct
    cases List.mem_cons.mp member with
    | inl same =>
      cases same
      cases value with
      | none => exact field_absent fun inside => distinct.1 (record_keys rest inside)
      | some value => exact (field_cons key value (record rest) key).trans (if_pos rfl)
    | inr later =>
      have other : key ≠ name := by
        intro same
        subst same
        exact distinct.1 (List.mem_map.mpr ⟨_, later, rfl⟩)
      cases first with
      | none => exact ih distinct.2 later
      | some first =>
        exact ((field_cons name first (record rest) key).trans (if_neg other)).trans
          (ih distinct.2 later)

theorem objects_written (f : α → Entries) (xs : List α) :
    objects (xs.map fun x => .object (f x)) = xs.map f := by
  induction xs with
  | nil => rfl
  | cons x rest ih =>
    rw [List.map_cons, List.map_cons, ← ih]
    rfl

theorem objects_at_written (distinct : (fields.map Prod.fst).Nodup) {xs : List α}
    (member : (key, some (written f xs)) ∈ fields) : objectsAt (record fields) key = xs.map f := by
  rw [objectsAt, field_record distinct member]
  exact objects_written f xs

theorem objects_at_listed (distinct : (fields.map Prod.fst).Nodup) {xs : List α}
    (member : (key, listed f xs) ∈ fields) : objectsAt (record fields) key = xs.map f := by
  cases xs with
  | nil =>
    rw [objectsAt, field_record distinct member]
    rfl
  | cons x rest => exact objects_at_written distinct member

theorem object_at_map (distinct : (fields.map Prod.fst).Nodup) {x : Option α}
    (member : (key, x.map fun x => .object (f x)) ∈ fields) :
    objectAt (record fields) key = x.map f := by
  rw [objectAt, field_record distinct member]
  cases x with
  | none => rfl
  | some x => rfl

end Writing

end JsonRecord
