import Mathlib.Data.Rat.Defs
import Radar.Base.WriteMap

/- JSON values as decoded trees. An object lists its entries by key, each key once, so that two
   objects are the same map exactly when they are the same list. -/
namespace JsonTree

inductive Value where
  | null
  | bool (b : Bool)
  | integer (value : Int)
  | float (value : Rat)
  | string (text : String)
  | array (elements : List Value)
  | object (entries : List (String × Value))

abbrev Entries := List (String × Value)

mutual
def same : Value → Value → Bool
  | .null, .null => true
  | .bool a, .bool b => a == b
  | .integer a, .integer b => a == b
  | .float a, .float b => a == b
  | .string a, .string b => a == b
  | .array a, .array b => sameElements a b
  | .object a, .object b => sameEntries a b
  | _, _ => false

def sameElements : List Value → List Value → Bool
  | [], [] => true
  | a :: as, b :: bs => same a b && sameElements as bs
  | _, _ => false

def sameEntries : Entries → Entries → Bool
  | [], [] => true
  | (key, a) :: as, (key', b) :: bs => (key == key' && same a b) && sameEntries as bs
  | _, _ => false
end

mutual
theorem same_iff : ∀ a b : Value, same a b = true ↔ a = b
  | .null, b => by cases b <;> simp [same]
  | .bool a, b => by cases b <;> simp [same]
  | .integer a, b => by cases b <;> simp [same]
  | .float a, b => by cases b <;> simp [same]
  | .string a, b => by cases b <;> simp [same]
  | .array a, b => by
    cases b with
    | array b => simp [same, elements_same_iff a b]
    | _ => simp [same]
  | .object a, b => by
    cases b with
    | object b => simp [same, entries_same_iff a b]
    | _ => simp [same]

theorem elements_same_iff : ∀ a b : List Value, sameElements a b = true ↔ a = b
  | [], b => by cases b <;> simp [sameElements]
  | a :: as, b => by
    cases b with
    | nil => simp [sameElements]
    | cons b bs => simp [sameElements, same_iff a b, elements_same_iff as bs]

theorem entries_same_iff : ∀ a b : Entries, sameEntries a b = true ↔ a = b
  | [], b => by cases b <;> simp [sameEntries]
  | (key, a) :: as, b => by
    cases b with
    | nil => simp [sameEntries]
    | cons entry bs =>
      obtain ⟨key', b⟩ := entry
      simp [sameEntries, same_iff a b, entries_same_iff as bs]
end

instance : DecidableEq Value := fun a b => decidable_of_iff (same a b = true) (same_iff a b)

def field (entries : Entries) (key : String) : Option Value := entries.lookup key

/-- The value at the end of a path of keys through nested objects. -/
def nested : Value → List String → Option Value
  | value, [] => some value
  | .object entries, key :: rest => (field entries key).bind fun inner => nested inner rest
  | _, _ :: _ => none

def drop (keys : List String) (entries : Entries) : Entries :=
  entries.filter fun entry => !keys.contains entry.1

/-- What stands at a key changed, everything else left. -/
def change (key : String) (f : Value → Value) (entries : Entries) : Entries :=
  entries.map fun entry => (entry.1, if entry.1 = key then f entry.2 else entry.2)

/-- An object rewritten, and any other value left. -/
def onObject (f : Entries → Entries) : Value → Value
  | .object entries => .object (f entries)
  | value => value

def onElements (f : Value → Value) : Value → Value
  | .array elements => .array (elements.map f)
  | value => value

theorem field_cons (name : String) (value : Value) (rest : Entries) (key : String) :
    field ((name, value) :: rest) key = if key = name then some value else field rest key := by
  rw [field, List.lookup_cons]
  by_cases here : key = name
  · rw [beq_iff_eq.mpr here, if_pos here]
  · rw [beq_false_of_ne here, if_neg here]
    rfl

theorem field_change (key other : String) (f : Value → Value) (entries : Entries) :
    field (change key f entries) other =
      (field entries other).map fun value => if other = key then f value else value := by
  induction entries with
  | nil => rfl
  | cons entry rest ih =>
    obtain ⟨name, value⟩ := entry
    rw [change, List.map_cons, field_cons, field_cons]
    by_cases here : other = name
    · subst here
      rw [if_pos rfl, if_pos rfl]
      rfl
    · rw [if_neg here, if_neg here]
      exact ih

theorem field_change_other {key other : String} (differ : other ≠ key) (f : Value → Value)
    (entries : Entries) : field (change key f entries) other = field entries other := by
  rw [field_change]
  simp [differ]

theorem field_drop {keys : List String} {key : String} (kept : key ∉ keys) (entries : Entries) :
    field (drop keys entries) key = field entries key :=
  @WriteMap.lookup_filter _ _ _ entries key (fun name => !keys.contains name) (by simp [kept])

theorem field_absent {entries : Entries} {key : String} (absent : key ∉ entries.map Prod.fst) :
    field entries key = none := by
  induction entries with
  | nil => rfl
  | cons entry rest ih =>
    obtain ⟨name, value⟩ := entry
    rw [List.map_cons, List.mem_cons, not_or] at absent
    rw [field_cons, if_neg absent.1, ih absent.2]

/-- Objects of the same keys and the same value at each are the same. -/
theorem entries_ext {a b : Entries} (distinct : (a.map Prod.fst).Nodup)
    (keys : a.map Prod.fst = b.map Prod.fst) (fields : ∀ name, field a name = field b name) :
    a = b := by
  induction a generalizing b with
  | nil => exact (List.map_eq_nil_iff.mp keys.symm).symm
  | cons entry rest ih =>
    cases b with
    | nil => simp at keys
    | cons entry' rest' =>
      obtain ⟨name, value⟩ := entry
      obtain ⟨name', value'⟩ := entry'
      obtain ⟨same, behind⟩ := List.cons.inj keys
      replace same : name = name' := same
      subst same
      rw [List.map_cons, List.nodup_cons] at distinct
      have values : value = value' := by
        have here := fields name
        rw [field_cons, field_cons, if_pos rfl, if_pos rfl] at here
        exact Option.some.inj here
      have others : rest = rest' := by
        apply ih distinct.2 behind
        intro other
        by_cases here : other = name
        · subst here
          rw [field_absent distinct.1, field_absent (behind ▸ distinct.1)]
        · have below := fields other
          rwa [field_cons, field_cons, if_neg here, if_neg here] at below
      rw [values, others]

end JsonTree
