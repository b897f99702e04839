import Mathlib.Data.String.Basic
import Radar.Base.GoText
import Radar.Base.JsonTree
import Radar.Base.SortedEntries

/- JSON pointers (RFC 6901): their texts, the values they lead to, and the values put where they
   lead. -/
namespace JsonPointer
open GoText JsonTree List

section Texts

def escapeChar (c : Char) : List Char := if c = '~' then ['~', '0'] else if c = '/' then ['~', '1'] else [c]

def escape (token : String) : String := String.ofList (token.toList.flatMap escapeChar)

def pointer : List String → String
  | [] => ""
  | token :: rest => "/" ++ escape token ++ pointer rest

/-- strings.ReplaceAll of two characters by one. -/
def replacePair (a b c : Char) : List Char → List Char
  | x :: y :: rest =>
    if x = a ∧ y = b then c :: replacePair a b c rest else x :: replacePair a b c (y :: rest)
  | rest => rest

def unescape (raw : List Char) : String :=
  String.ofList (replacePair '~' '0' '~' (replacePair '~' '1' '/' raw))

/-- The tokens of a pointer's text; a text that starts otherwise is none. -/
def tokensOf (text : String) : Option (List String) := match text.toList with
  | [] => some []
  | '/' :: rest => some ((rest.splitOn '/').map unescape)
  | _ => none

variable {a b c x : Char}

theorem replace_skip (other : x ≠ a) (rest : List Char) :
    replacePair a b c (x :: rest) = x :: replacePair a b c rest := by
  cases rest with
  | nil => rfl
  | cons y rest => rw [replacePair, if_neg fun both => other both.1]

/-- Slashes are written back first, then tildes. -/
theorem unescape_slashes (chars : List Char) : replacePair '~' '1' '/' (chars.flatMap escapeChar) =
    chars.flatMap fun c => if c = '~' then ['~', '0'] else [c] := by
  induction chars with
  | nil => rfl
  | cons c rest ih =>
    rw [flatMap_cons, flatMap_cons, ← ih, escapeChar]
    by_cases tilde : c = '~'
    · rw [if_pos tilde, if_pos tilde, cons_append, cons_append, nil_append, replacePair,
        if_neg (by decide), replace_skip (by decide)]
      rfl
    · rw [if_neg tilde, if_neg tilde]
      by_cases slash : c = '/'
      · rw [if_pos slash, cons_append, cons_append, nil_append, replacePair,
          if_pos ⟨rfl, rfl⟩, slash]
        rfl
      · rw [if_neg slash, singleton_append, singleton_append, replace_skip tilde]

theorem unescape_tildes (chars : List Char) :
    replacePair '~' '0' '~' (chars.flatMap fun c => if c = '~' then ['~', '0'] else [c]) = chars := by
  induction chars with
  | nil => rfl
  | cons c rest ih =>
    rw [flatMap_cons]
    by_cases tilde : c = '~'
    · rw [if_pos tilde, cons_append, cons_append, nil_append, replacePair,
        if_pos ⟨rfl, rfl⟩, ih, tilde]
    · rw [if_neg tilde, singleton_append, replace_skip tilde, ih]

theorem unescape_escape (token : String) : unescape (token.toList.flatMap escapeChar) = token := by
  rw [unescape, unescape_slashes, unescape_tildes, String.ofList_toList]

theorem escape_plain (token : String) : '/' ∉ token.toList.flatMap escapeChar := by
  intro member
  obtain ⟨c, _, there⟩ := mem_flatMap.mp member
  unfold escapeChar at there
  split at there
  · exact absurd there (by decide)
  · split at there
    · exact absurd there (by decide)
    next _ slash => exact slash (mem_singleton.mp there).symm

theorem pointer_chars (token : String) (rest : List String) : (pointer (token :: rest)).toList =
    '/' :: join '/' ((token :: rest).map fun t => t.toList.flatMap escapeChar) := by
  have slash : "/".toList = ['/'] := by decide
  induction rest generalizing token with
  | nil => simp [pointer, escape, slash, join]
  | cons next rest ih =>
    have later := ih next
    rw [map_cons] at later ⊢
    rw [map_cons, join, intercalate_cons_cons, pointer, String.toList_append, later, join]
    simp [escape, slash]

/-- What a pointer's text is read as is what it was written from. -/
theorem tokensOf_pointer (tokens : List String) : tokensOf (pointer tokens) = some tokens := by
  cases tokens with
  | nil => rfl
  | cons token rest =>
    have plain : ∀ piece ∈ (token :: rest).map (fun t : String => t.toList.flatMap escapeChar),
        '/' ∉ piece := by
      intro piece member
      obtain ⟨t, _, rfl⟩ := mem_map.mp member
      exact escape_plain t
    have pieces : (join '/' ((token :: rest).map fun t : String => t.toList.flatMap escapeChar)).splitOn '/' =
        (token :: rest).map fun t : String => t.toList.flatMap escapeChar := by
      rw [split_join (by simp), whole_pieces plain]
    have back : ∀ t : String, (unescape ∘ fun t : String => t.toList.flatMap escapeChar) t = t :=
      unescape_escape
    rw [tokensOf, pointer_chars]
    simp only [pieces, map_map, map_id'' back]

theorem pointer_append (tokens more : List String) :
    pointer (tokens ++ more) = pointer tokens ++ pointer more := by
  induction tokens with
  | nil => rw [nil_append, pointer, String.empty_append]
  | cons token rest ih => simp only [cons_append, pointer, ih, String.append_assoc]

end Texts

section Values

/-- The place in an array that a token names, its number in decimal digits. -/
def arrayIndex (count : Nat) (token : String) : Option Nat :=
  (List.range count).find? fun i => toString i == token

/-- What a pointer leads to; in nothing it leads to nothing. -/
def valueAt : List String → Option Value → Option Value
  | [], value => value
  | token :: rest, some (.object entries) => valueAt rest (field entries token)
  | token :: rest, some (.array elements) =>
    valueAt rest ((arrayIndex elements.length token).bind fun i => elements[i]?)
  | _ :: _, _ => none

/-- A field set, or taken out. -/
def setField (key : String) (new : Option Value) (entries : Entries) : Entries := match new with
  | some value => SortedEntries.put key value entries
  | none => drop [key] entries

/-- The value put where a pointer leads. What is missing on the way, or null, becomes an object; in
anything else there is no place to put it. -/
def putAt : List String → Option Value → Option Value → Option Value
  | [], new, _ => new
  | token :: rest, new, some (.object entries) =>
    some (.object (setField token (putAt rest new (field entries token)) entries))
  | token :: rest, new, some (.array elements) =>
    some (.array (match arrayIndex elements.length token with
      | some i => elements.modify i fun element => (putAt rest new (some element)).getD element
      | none => elements))
  | token :: rest, new, none => some (.object (setField token (putAt rest new none) []))
  | token :: rest, new, some .null => some (.object (setField token (putAt rest new none) []))
  | _ :: _, _, value => value

theorem arrayIndex_iff {count : Nat} {token : String} {i : Nat} :
    arrayIndex count token = some i ↔ i < count ∧ toString i = token := by
  have reads : ∀ j, arrayIndex count token = some j → j < count ∧ toString j = token := by
    intro j found
    have named := find?_some found
    have listed := mem_of_find?_eq_some found
    exact ⟨mem_range.mp listed, beq_iff_eq.mp named⟩
  constructor
  · exact reads i
  · rintro ⟨inside, rfl⟩
    cases found : arrayIndex count (toString i) with
    | none =>
      have missed := find?_eq_none.mp found i (mem_range.mpr inside)
      exact absurd (beq_self_eq_true (toString i)) missed
    | some j => rw [toString_inj (reads j found).2]

theorem field_find (entries : Entries) (key : String) :
    field entries key = SortedEntries.find key entries := by
  induction entries with
  | nil => rfl
  | cons entry rest ih =>
    obtain ⟨name, value⟩ := entry
    rw [field_cons, SortedEntries.find_cons, ih]

theorem field_set (key other : String) (new : Option Value) (entries : Entries) :
    field (setField key new entries) other = if other = key then new else field entries other := by
  cases new with
  | some value => rw [setField, field_find, SortedEntries.find_put, field_find]
  | none =>
    rw [setField]
    by_cases here : other = key
    · rw [if_pos here, here]
      refine field_absent fun listed => ?_
      obtain ⟨entry, kept, same⟩ := mem_map.mp listed
      have stays := (mem_filter.mp kept).2
      simp [same] at stays
    · rw [if_neg here, field_drop (by simpa using here)]

end Values

section Heads

/-- What a value is apart from its parts. A number is its value, however it is held. -/
inductive Head where
  | null
  | bool (b : Bool)
  | number (value : Rat)
  | string (text : String)
  | array (count : Nat)
  | object

def number : Value → Option Rat
  | .integer value => some value
  | .float value => some value
  | _ => none

def head : Value → Head
  | .null => .null
  | .bool b => .bool b
  | .integer value => .number value
  | .float value => .number value
  | .string text => .string text
  | .array elements => .array elements.length
  | .object _ => .object

/-- The same all the way down, where an object is what its keys lead to. -/
def Same (a b : Option Value) : Prop := ∀ path, (valueAt path a).map head = (valueAt path b).map head

theorem same_refl (a : Option Value) : Same a a := fun _ => rfl

theorem Same.head {a b : Option Value} (same : Same a b) : a.map JsonPointer.head = b.map JsonPointer.head :=
  same []

/-- Nothing, and what has no parts, is known from its head. -/
def Leaf : Option Value → Prop
  | some (.object _) => False
  | some (.array _) => False
  | _ => True

theorem leaf_below {a : Option Value} (leaf : Leaf a) (token : String) (rest : List String) :
    valueAt (token :: rest) a = none := by
  cases a with
  | none => rfl
  | some value =>
    cases value with
    | object entries => exact leaf.elim
    | array elements => exact leaf.elim
    | _ => rfl

theorem same_leaf {a b : Option Value} (leaf : Leaf a) (leaf' : Leaf b) :
    Same a b ↔ a.map head = b.map head := by
  refine ⟨fun same => same.head, fun same path => ?_⟩
  cases path with
  | nil => exact same
  | cons token rest => rw [leaf_below leaf, leaf_below leaf']

theorem same_object {a b : Entries} : Same (some (.object a)) (some (.object b)) ↔
    ∀ key, Same (field a key) (field b key) := by
  refine ⟨fun same key path => same (key :: path), fun same path => ?_⟩
  cases path with
  | nil => rfl
  | cons key rest => exact same key rest

theorem element_value {elements : List Value} {i : Nat} (inside : i < elements.length)
    (rest : List String) :
    valueAt (toString i :: rest) (some (.array elements)) = valueAt rest elements[i]? := by
  rw [valueAt, arrayIndex_iff.mpr ⟨inside, rfl⟩]
  rfl

theorem same_array {a b : List Value} : Same (some (.array a)) (some (.array b)) ↔
    a.length = b.length ∧ ∀ i : Nat, Same a[i]? b[i]? := by
  constructor
  · intro same
    have lengths : a.length = b.length := Head.array.inj (Option.some.inj same.head)
    refine ⟨lengths, fun i path => ?_⟩
    by_cases inside : i < a.length
    · have below := same (toString i :: path)
      rwa [element_value inside, element_value (lengths ▸ inside)] at below
    · have outside : b.length ≤ i := by omega
      rw [getElem?_eq_none (Nat.le_of_not_lt inside), getElem?_eq_none outside]
  · rintro ⟨lengths, same⟩ path
    cases path with
    | nil => exact congrArg (fun n => some (Head.array n)) lengths
    | cons token rest =>
      rw [valueAt, valueAt, lengths]
      cases arrayIndex b.length token with
      | none => rfl
      | some i => exact same i rest

end Heads
end JsonPointer
