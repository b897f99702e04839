import Mathlib.Data.Rat.Defs

/- JSON values, whose objects are maps from keys, and the merge patch of RFC 7386. -/
namespace MergePatch
variable {path : List String}

inductive Json where
  | null
  | bool (b : Bool)
  | number (value : Rat)
  | string (text : String)
  | array (elements : List Json)
  | object (fields : String → Option Json)

def Json.field : Json → String → Option Json
  | .object fields, key => fields key
  | _, _ => none

/-- An object of the given entries. -/
def entries (fields : List (String × Json)) : Json := .object fun key => fields.lookup key

/-- The value at the end of a path of keys. -/
def Json.get : Json → List String → Option Json
  | value, [] => some value
  | value, key :: rest => (value.field key).bind fun inner => inner.get rest

mutual
def merge (target : Json) : Json → Json
  | .object patch => .object fun key => mergeField (target.field key) (patch key)
  | patch => patch
termination_by structural patch => patch

/-- A null removes a field; what a patch does not name stays. -/
def mergeField (target : Option Json) : Option Json → Option Json
  | none => target
  | some .null => none
  | some patch => some (merge (target.getD .null) patch)
termination_by structural patch => patch
end

theorem get_single (value : Json) (key : String) : value.get [key] = value.field key := by
  rw [Json.get]
  cases value.field key <;> rfl

theorem get_null (inner : path ≠ []) : Json.null.get path = none := by
  cases path with
  | nil => exact absurd rfl inner
  | cons key rest => rfl

theorem field_merge (target : Json) (patch : String → Option Json) (key : String) :
    (merge target (.object patch)).field key = mergeField (target.field key) (patch key) := rfl

theorem field_of_get {patch value : Json} {key : String} {rest : List String}
    (found : patch.get (key :: rest) = some value) :
    ∃ fields inner, patch = .object fields ∧ fields key = some inner ∧ inner.get rest = some value := by
  rw [Json.get, Option.bind_eq_some_iff] at found
  obtain ⟨inner, here, deeper⟩ := found
  cases patch with
  | object fields => exact ⟨fields, inner, rfl, here, deeper⟩
  | _ => simp [Json.field] at here

/-- A field patched by an object is looked into as if it had been empty where it was missing. -/
theorem get_merge_object (target : Json) (fields inner : String → Option Json) {key : String}
    (here : fields key = some (.object inner)) (path : List String) :
    (merge target (.object fields)).get (key :: path) =
      (merge ((target.field key).getD .null) (.object inner)).get path := by
  rw [Json.get, field_merge, here]
  rfl

theorem get_missing (target : Json) (key : String) (inner : path ≠ []) :
    ((target.field key).getD .null).get path = target.get (key :: path) := by
  rw [Json.get]
  cases target.field key with
  | none => exact get_null inner
  | some value => rfl

/-- Where the patch has a value, the target's own value is merged with that. -/
theorem get_merge_patched {target patch value : Json} (inner : path ≠ [])
    (patched : patch.get path = some value) :
    (merge target patch).get path = mergeField (target.get path) (some value) := by
  induction path generalizing target patch with
  | nil => exact absurd rfl inner
  | cons key rest ih =>
    obtain ⟨fields, next, whole, here, deeper⟩ := field_of_get patched
    rw [whole]
    cases rest with
    | nil =>
      rw [Json.get, Option.some.injEq] at deeper
      rw [deeper] at here
      rw [get_single, get_single, field_merge, here]
    | cons key' rest =>
      obtain ⟨fields', _, whole', _⟩ := field_of_get deeper
      have some : key' :: rest ≠ [] := List.cons_ne_nil key' rest
      rw [whole'] at here deeper
      rw [get_merge_object target fields fields' here, ih some deeper, get_missing target key some]

/-- A path the patch's objects do not lead along. -/
def Untouched : List String → Json → Prop
  | key :: rest, .object fields =>
    match fields key with
    | none => True
    | some inner => Untouched rest inner
  | _, _ => False

theorem get_merge_untouched {target patch : Json}
    (apart : Untouched path patch) : (merge target patch).get path = target.get path := by
  induction path generalizing target patch with
  | nil => exact apart.elim
  | cons key rest ih =>
    cases patch with
    | object fields =>
      cases here : fields key with
      | none =>
        rw [Json.get, Json.get, field_merge, here]
        rfl
      | some inner =>
        simp only [Untouched, here] at apart
        cases inner with
        | object fields' =>
          have some : rest ≠ [] := by
            intro empty
            rw [empty] at apart
            exact apart
          rw [get_merge_object target fields fields' here, ih apart, get_missing target key some]
        | _ => exact absurd apart (by simp [Untouched])
    | _ => exact absurd apart (by simp [Untouched])

section Replacing
variable {absent : Bool} {value : Json}

mutual
/-- What is read of a value, where fields of null may pass for absent ones. -/
def reading (absent : Bool) : Json → Json
  | .object fields => .object fun key => readingField absent (fields key)
  | value => value
termination_by structural value => value

def readingField (absent : Bool) : Option Json → Option Json
  | none => none
  | some .null => if absent then none else some .null
  | some value => some (reading absent value)
termination_by structural value => value
end

mutual
/-- Nothing stands in the target where the objects of the patch lack a field. -/
def Covers (absent : Bool) (target : Json) : Json → Prop
  | .object patch => ∀ key, CoversField absent (target.field key) (patch key)
  | _ => True
termination_by structural patch => patch

def CoversField (absent : Bool) (target : Option Json) : Option Json → Prop
  | none => target = none ∨ absent = true ∧ target = some .null
  | some .null => absent = true
  | some patch => Covers absent (target.getD .null) patch
termination_by structural patch => patch
end

theorem reading_field_none {value : Option Json} :
    readingField absent value = none ↔ value = none ∨ absent = true ∧ value = some .null := by
  cases value with
  | none => simp [readingField]
  | some inner => cases inner <;> simp [readingField]

theorem merge_ne_null {target patch : Json} (other : patch ≠ .null) : merge target patch ≠ .null := by
  cases patch <;> simp_all [merge]

theorem reading_some (other : value ≠ .null) :
    readingField absent (some value) = some (reading absent value) := by
  cases value <;> simp_all [readingField]

mutual
/-- A patch takes the target's place exactly where it covers it. -/
theorem merge_covers (absent : Bool) (target : Json) : ∀ patch : Json,
    reading absent (merge target patch) = reading absent patch ↔ Covers absent target patch
  | .object patch => by
    have fields : ∀ key, _ := fun key => merge_field_covers absent (target.field key) (patch key)
    rw [merge, reading, reading, Covers, Json.object.injEq, funext_iff]
    exact forall_congr' fields
  | .null => by simp [merge, Covers]
  | .bool _ => by simp [merge, Covers]
  | .number _ => by simp [merge, Covers]
  | .string _ => by simp [merge, Covers]
  | .array _ => by simp [merge, Covers]
termination_by structural patch => patch

theorem merge_field_covers (absent : Bool) (target : Option Json) : ∀ patch : Option Json,
    readingField absent (mergeField target patch) = readingField absent patch ↔
      CoversField absent target patch
  | none => by
    rw [mergeField, readingField, CoversField]
    exact reading_field_none
  | some .null => by
    cases absent <;> simp [mergeField, readingField, CoversField]
  | some (.object patch) => by
    have inner := merge_covers absent (target.getD .null) (.object patch)
    simp only [mergeField, CoversField]
    rw [reading_some (merge_ne_null (by simp)), reading_some (by simp), Option.some.injEq, inner]
  | some (.bool _) => by simp [mergeField, merge, CoversField, Covers]
  | some (.number _) => by simp [mergeField, merge, CoversField, Covers]
  | some (.string _) => by simp [mergeField, merge, CoversField, Covers]
  | some (.array _) => by simp [mergeField, merge, CoversField, Covers]
termination_by structural patch => patch
end

theorem reading_field (absent : Bool) (value : Json) (key : String) :
    (reading absent value).field key = readingField absent (value.field key) := by
  cases value <;> rfl

/-- Texts are read where they stand. -/
theorem get_reading {text : String} :
    (reading absent value).get path = some (.string text) ↔ value.get path = some (.string text) := by
  induction path generalizing value with
  | nil => cases value <;> simp [Json.get, reading]
  | cons key rest ih =>
    rw [Json.get, Json.get, reading_field]
    cases value.field key with
    | none => rfl
    | some inner =>
      by_cases empty : inner = .null
      · subst empty
        cases rest <;> cases absent <;> simp [readingField, Json.get, Json.field]
      · rw [reading_some empty]
        exact ih

/-- The field at the end of a path of keys taken out. -/
def Json.without : List String → Json → Json
  | [key], .object fields => .object fun name => if name = key then none else fields name
  | key :: rest, .object fields =>
    .object fun name => if name = key then (fields name).map (Json.without rest) else fields name
  | _, value => value

theorem get_without (value : Json) (inner : path ≠ []) : (value.without path).get path = none := by
  induction path generalizing value with
  | nil => contradiction
  | cons key rest ih =>
    cases value with
    | object fields =>
      cases rest with
      | nil => simp [Json.without, Json.get, Json.field]
      | cons key' rest =>
        simp only [Json.without, Json.get, Json.field, if_true]
        cases fields key with
        | none => rfl
        | some next => exact ih next (List.cons_ne_nil key' rest)
    | _ => cases rest <;> rfl

theorem without_absent (absent : value.get path = none) : value.without path = value := by
  induction path generalizing value with
  | nil => simp [Json.get] at absent
  | cons key rest ih =>
    cases value with
    | object fields =>
      cases rest with
      | nil =>
        rw [get_single, Json.field] at absent
        rw [Json.without]
        congr 1
        funext name
        split
        next here => rw [here, absent]
        next => rfl
      | cons key' rest =>
        rw [Json.get, Json.field] at absent
        rw [Json.without]
        · congr 1
          funext name
          split
          next here =>
            subst here
            cases found : fields name with
            | none => rfl
            | some next =>
              rw [found] at absent
              exact congrArg some (ih absent)
          next => rfl
        · exact List.cons_ne_nil key' rest
    | _ => cases rest <;> rfl

end Replacing

end MergePatch
