import Radar.Base.JsonPointer

/- JSON Patch (RFC 6902): what each operation makes of a document, and what then stands at its
   path. -/
namespace JsonPatch
open JsonTree JsonPointer

section Operations

inductive Operation where
  | add (path : List String) (value : Value)
  | remove (path : List String)
  | replace (path : List String) (value : Value)
  | move (origin path : List String)
  | copy (origin path : List String)
  | test (path : List String) (value : Value)

/-- What stands in the container a path ends in, given the last token, made anew. -/
abbrev Edit := String → Value → Option Value

def insertAt (value : Value) : Edit
  | token, .object entries => some (.object (setField token (some value) entries))
  | token, .array elements =>
    if token = "-" then some (.array (elements ++ [value]))
    else (arrayIndex (elements.length + 1) token).map fun i => .array (elements.insertIdx i value)
  | _, _ => none

def setAt (value : Value) : Edit
  | token, .object entries =>
    (field entries token).map fun _ => .object (setField token (some value) entries)
  | token, .array elements => (arrayIndex elements.length token).map fun i => .array (elements.set i value)
  | _, _ => none

def removeAt : Edit
  | token, .object entries => (field entries token).map fun _ => .object (setField token none entries)
  | token, .array elements => (arrayIndex elements.length token).map fun i => .array (elements.eraseIdx i)
  | _, _ => none

/-- An edit at the end of a path, everything on the way there. -/
def within (edit : Edit) : List String → Value → Option Value
  | [], _ => none
  | [token], value => edit token value
  | token :: next :: rest, .object entries => (field entries token).bind fun inner =>
    (within edit (next :: rest) inner).map fun new => .object (setField token (some new) entries)
  | token :: next :: rest, .array elements => (arrayIndex elements.length token).bind fun i =>
    elements[i]?.bind fun inner =>
      (within edit (next :: rest) inner).map fun new => .array (elements.set i new)
  | _ :: _ :: _, _ => none

/-- The empty path is the document itself, which a patch may also take away and put back. -/
def add (path : List String) (value : Value) (doc : Option Value) : Option (Option Value) :=
  if path = [] then some (some value)
  else doc.bind fun whole => (within (insertAt value) path whole).map some

def replace (path : List String) (value : Value) (doc : Option Value) : Option (Option Value) :=
  if path = [] then doc.map fun _ => some value
  else doc.bind fun whole => (within (setAt value) path whole).map some

def remove (path : List String) (doc : Option Value) : Option (Option Value) :=
  if path = [] then doc.map fun _ => none
  else doc.bind fun whole => (within removeAt path whole).map some

mutual
/-- Equal as JSON: numbers by value, objects by what stands at each key. -/
def equal : Value → Value → Bool
  | .array elements, .array others => equalElements elements others
  | .object entries, .object others => entries.length == others.length && equalEntries entries others
  | .integer value, other => number other == some (value : Rat)
  | .float value, other => number other == some value
  | value, other => value == other

def equalElements : List Value → List Value → Bool
  | [], [] => true
  | value :: rest, other :: others => equal value other && equalElements rest others
  | _, _ => false

def equalEntries : Entries → Entries → Bool
  | [], _ => true
  | (key, value) :: rest, others =>
    (match field others key with
    | some other => equal value other
    | none => false) && equalEntries rest others
end

/-- An operation's outcome, nothing where it fails. -/
def apply : Operation → Option Value → Option (Option Value)
  | .add path value, doc => add path value doc
  | .remove path, doc => remove path doc
  | .replace path value, doc => replace path value doc
  | .move origin path, doc =>
    if origin.isPrefixOf path ∧ origin ≠ path then none
    else (valueAt origin doc).bind fun value => (remove origin doc).bind (add path value)
  | .copy origin path, doc => (valueAt origin doc).bind fun value => add path value doc
  | .test path value, doc => (valueAt path doc).bind fun there => if equal there value then some doc else none

/-- The operations one after another; a patch fails as a whole. -/
def applyAll : List Operation → Option Value → Option (Option Value)
  | [], doc => some doc
  | op :: rest, doc => (apply op doc).bind (applyAll rest)

end Operations

section Standing
variable {edit : Edit} {value v v' : Value} {path : List String} {doc doc' : Option Value}

/-- What an edit leaves at its token is what it leaves at the path. -/
theorem within_last {new : Option Value} {fit : String → Prop}
    (last : ∀ token c c', fit token → edit token c = some c' → valueAt [token] (some c') = new)
    (fits : ∀ token, path.getLast? = some token → fit token) (edited : within edit path v = some v') :
    valueAt path (some v') = new := by
  induction path generalizing v v' with
  | nil => exact absurd edited (by simp [within])
  | cons token rest ih =>
    cases rest with
    | nil => exact last token v v' (fits token rfl) edited
    | cons next rest =>
      have inner_fits : ∀ token, (next :: rest).getLast? = some token → fit token := by
        intro other same
        exact fits other (by rw [List.getLast?_cons_cons, same])
      cases v with
      | object entries =>
        obtain ⟨inner, there, made⟩ := Option.bind_eq_some_iff.mp edited
        obtain ⟨new', below, rfl⟩ := Option.map_eq_some_iff.mp made
        have found := ih inner_fits below
        rwa [valueAt, field_set, if_pos rfl]
      | array elements =>
        obtain ⟨i, index, within_⟩ := Option.bind_eq_some_iff.mp edited
        obtain ⟨inner, there, made⟩ := Option.bind_eq_some_iff.mp within_
        obtain ⟨new', below, rfl⟩ := Option.map_eq_some_iff.mp made
        have found := ih inner_fits below
        have inside := (arrayIndex_iff.mp index).1
        rwa [valueAt, List.length_set, index, Option.bind_some, List.getElem?_set_self inside]
      | _ => exact absurd edited (by simp [within])

/-- What was there for an edit to be made was there at the path. -/
theorem within_found (first : ∀ token c c', edit token c = some c' → (valueAt [token] (some c)).isSome)
    (edited : within edit path v = some v') : (valueAt path (some v)).isSome := by
  induction path generalizing v v' with
  | nil => exact absurd edited (by simp [within])
  | cons token rest ih =>
    cases rest with
    | nil => exact first token v v' edited
    | cons next rest =>
      cases v with
      | object entries =>
        obtain ⟨inner, there, made⟩ := Option.bind_eq_some_iff.mp edited
        obtain ⟨new', below, rfl⟩ := Option.map_eq_some_iff.mp made
        rw [valueAt, there]
        exact ih below
      | array elements =>
        obtain ⟨i, index, within_⟩ := Option.bind_eq_some_iff.mp edited
        obtain ⟨inner, there, made⟩ := Option.bind_eq_some_iff.mp within_
        obtain ⟨new', below, rfl⟩ := Option.map_eq_some_iff.mp made
        rw [valueAt, index, Option.bind_some, there]
        exact ih below
      | _ => exact absurd edited (by simp [within])

theorem insert_value (token : String) (c c' : Value) (fit : token ≠ "-")
    (edited : insertAt value token c = some c') : valueAt [token] (some c') = some value := by
  cases c with
  | object entries =>
    obtain rfl := Option.some.inj edited
    rw [valueAt, valueAt, field_set, if_pos rfl]
  | array elements =>
    rw [insertAt, if_neg fit] at edited
    obtain ⟨i, index, rfl⟩ := Option.map_eq_some_iff.mp edited
    have inside : i ≤ elements.length := Nat.le_of_lt_succ (arrayIndex_iff.mp index).1
    rw [valueAt, List.length_insertIdx_of_le_length inside, index, Option.bind_some, valueAt,
      List.getElem?_insertIdx_self, if_pos inside]
  | _ => exact absurd edited (by simp [insertAt])

theorem set_value (token : String) (c c' : Value) (edited : setAt value token c = some c') :
    valueAt [token] (some c') = some value := by
  cases c with
  | object entries =>
    obtain ⟨_, _, rfl⟩ := Option.map_eq_some_iff.mp edited
    rw [valueAt, valueAt, field_set, if_pos rfl]
  | array elements =>
    obtain ⟨i, index, rfl⟩ := Option.map_eq_some_iff.mp edited
    rw [valueAt, List.length_set, index, Option.bind_some, valueAt,
      List.getElem?_set_self (arrayIndex_iff.mp index).1]
  | _ => exact absurd edited (by simp [setAt])

theorem remove_there (token : String) (c c' : Value) (edited : removeAt token c = some c') :
    (valueAt [token] (some c)).isSome := by
  cases c with
  | object entries =>
    obtain ⟨there, found, _⟩ := Option.map_eq_some_iff.mp edited
    rw [valueAt, valueAt, found]
    rfl
  | array elements =>
    obtain ⟨i, index, _⟩ := Option.map_eq_some_iff.mp edited
    rw [valueAt, index, Option.bind_some, valueAt, List.getElem?_eq_getElem (arrayIndex_iff.mp index).1]
    rfl
  | _ => exact absurd edited (by simp [removeAt])

/-- What was added stands at its path, unless the path only says where an array ends. -/
theorem add_value (fit : path.getLast? ≠ some "-") (added : add path value doc = some doc') :
    valueAt path doc' = some value := by
  by_cases top : path = []
  · rw [add, if_pos top] at added
    rw [top, ← Option.some.inj added]
    rfl
  · rw [add, if_neg top] at added
    obtain ⟨whole, _, made⟩ := Option.bind_eq_some_iff.mp added
    obtain ⟨whole', edited, rfl⟩ := Option.map_eq_some_iff.mp made
    refine @within_last _ _ _ _ _ (· ≠ "-") insert_value ?_ edited
    rintro token same rfl
    exact fit same

theorem replace_value (replaced : replace path value doc = some doc') : valueAt path doc' = some value := by
  by_cases top : path = []
  · rw [replace, if_pos top] at replaced
    obtain ⟨_, _, rfl⟩ := Option.map_eq_some_iff.mp replaced
    rw [top]
    rfl
  · rw [replace, if_neg top] at replaced
    obtain ⟨whole, _, made⟩ := Option.bind_eq_some_iff.mp replaced
    obtain ⟨whole', edited, rfl⟩ := Option.map_eq_some_iff.mp made
    exact @within_last _ _ _ _ _ (fun _ => True) (fun token c c' _ => set_value token c c')
      (fun _ _ => trivial) edited

theorem remove_found (removed : remove path doc = some doc') : (valueAt path doc).isSome := by
  by_cases top : path = []
  · rw [remove, if_pos top] at removed
    obtain ⟨_, rfl, _⟩ := Option.map_eq_some_iff.mp removed
    rw [top]
    rfl
  · rw [remove, if_neg top] at removed
    obtain ⟨whole, rfl, made⟩ := Option.bind_eq_some_iff.mp removed
    obtain ⟨whole', edited, _⟩ := Option.map_eq_some_iff.mp made
    exact within_found remove_there edited

end Standing

section Lists
variable {ops front back : List Operation} {doc doc' : Option Value}

theorem apply_append : applyAll (front ++ back) doc = (applyAll front doc).bind (applyAll back) := by
  induction front generalizing doc with
  | nil => rfl
  | cons op rest ih =>
    rw [List.cons_append, applyAll, applyAll]
    cases apply op doc with
    | none => rfl
    | some next => exact ih

/-- An operation of a patch that applies has a document before it and one after it. -/
theorem apply_split {op : Operation} (applied : applyAll (front ++ op :: back) doc = some doc') :
    ∃ here next, applyAll front doc = some here ∧ apply op here = some next ∧
      applyAll back next = some doc' := by
  rw [apply_append] at applied
  obtain ⟨here, first, later⟩ := Option.bind_eq_some_iff.mp applied
  obtain ⟨next, step, rest⟩ := Option.bind_eq_some_iff.mp later
  exact ⟨here, next, first, step, rest⟩

end Lists
end JsonPatch
