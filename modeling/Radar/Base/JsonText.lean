import Mathlib.Data.String.Basic
import Radar.Base.SortedEntries

/- JSON values and the text encoding/json.Marshal writes for them, which tells any two of them apart. -/
namespace JsonText
open SortedEntries List
variable {s t : List Char}

def numeral (c : Char) : Bool := c.isDigit || c = '-' || c = '+' || c = '.' || c = 'e'

/-- A number, by the text that is written for it: an int64 and a float64 of one text are the same
   number. -/
structure Number where
  text : List Char
  some_ : text ≠ []
  plain : ∀ c ∈ text, numeral c = true
  deriving DecidableEq

inductive Json where
  | null
  | bool (b : Bool)
  | number (n : Number)
  | string (text : String)
  | array (elements : List Json)
  | object (entries : List (String × Json))

abbrev Entries := List (String × Json)

/-- Every map in the value lists its entries by key, each key once. -/
inductive Ordered : Json → Prop where
  | null : Ordered .null
  | bool (b : Bool) : Ordered (.bool b)
  | number (n : Number) : Ordered (.number n)
  | string (text : String) : Ordered (.string text)
  | array (elements : List Json) (all : ∀ v ∈ elements, Ordered v) : Ordered (.array elements)
  | object (entries : Entries) (sorted : Sorted entries) (all : ∀ e ∈ entries, Ordered e.2) :
      Ordered (.object entries)

theorem Ordered.entries {entries : Entries} (ordered : Ordered (.object entries)) :
    Sorted entries ∧ ∀ e ∈ entries, Ordered e.2 := by
  cases ordered with
  | object _ sorted all => exact ⟨sorted, all⟩

theorem Ordered.elements {elements : List Json} (ordered : Ordered (.array elements)) :
    ∀ v ∈ elements, Ordered v := by
  cases ordered with
  | array _ all => exact all

/-- A decoded document. -/
structure Doc where
  value : Json
  ordered : Ordered value

/-- A decoded object. -/
structure Obj where
  entries : Entries
  ordered : Ordered (.object entries)

/-- Reading a key of a Go map, which yields nil where the key is not there. -/
def valueAt (entries : Entries) (key : String) : Json := (find key entries).getD .null

theorem valueAt_ordered {entries : Entries} (all : ∀ e ∈ entries, Ordered e.2) (key : String) :
    Ordered (valueAt entries key) := by
  rw [valueAt]
  cases there : find key entries with
  | none => exact Ordered.null
  | some v => exact all (key, v) (find_mem there)

section Quote

def hexDigit (n : Nat) : Char := if n < 10 then Char.ofNat (48 + n) else Char.ofNat (87 + n)

def hexValue (c : Char) : Nat := if c.toNat < 58 then c.toNat - 48 else c.toNat - 87

def hexDigits (n : Nat) : List Char :=
  [hexDigit (n / 4096 % 16), hexDigit (n / 256 % 16), hexDigit (n / 16 % 16), hexDigit (n % 16)]

/-- The characters written as \u and four digits. -/
def escaped (c : Char) : Bool :=
  decide (c.toNat < 32) || c = '<' || c = '>' || c = '&' || c = '\u2028' || c = '\u2029'

def escape (c : Char) : List Char := if c = '"' then ['\\', '"']
  else if c = '\\' then ['\\', '\\']
  else if c = '\x08' then ['\\', 'b']
  else if c = '\x0c' then ['\\', 'f']
  else if c = '\n' then ['\\', 'n']
  else if c = '\r' then ['\\', 'r']
  else if c = '\t' then ['\\', 't']
  else if escaped c then '\\' :: 'u' :: hexDigits c.toNat
  else [c]

def quote (text : String) : List Char := '"' :: (text.toList.flatMap escape ++ ['"'])

/-- The character whose escape stands first, and what comes behind. -/
def unescape : List Char → Option (Char × List Char)
  | '\\' :: 'u' :: a :: b :: c :: d :: rest =>
    some (Char.ofNat (hexValue a * 4096 + hexValue b * 256 + hexValue c * 16 + hexValue d), rest)
  | '\\' :: 'b' :: rest => some ('\x08', rest)
  | '\\' :: 'f' :: rest => some ('\x0c', rest)
  | '\\' :: 'n' :: rest => some ('\n', rest)
  | '\\' :: 'r' :: rest => some ('\r', rest)
  | '\\' :: 't' :: rest => some ('\t', rest)
  | '\\' :: c :: rest => some (c, rest)
  | c :: rest => some (c, rest)
  | [] => none

theorem hex_value : ∀ n < 16, hexValue (hexDigit n) = n := by decide

theorem hex_restored {n : Nat} (small : n < 65536) :
    hexValue (hexDigit (n / 4096 % 16)) * 4096 + hexValue (hexDigit (n / 256 % 16)) * 256 +
      hexValue (hexDigit (n / 16 % 16)) * 16 + hexValue (hexDigit (n % 16)) = n := by
  rw [hex_value _ (by omega), hex_value _ (by omega), hex_value _ (by omega), hex_value _ (by omega)]
  omega

theorem escaped_small {c : Char} (special : escaped c = true) : c.toNat < 65536 := by
  simp only [escaped, Bool.or_eq_true, decide_eq_true_eq] at special
  rcases special with ((((control | rfl) | rfl) | rfl) | rfl) | rfl
  · omega
  all_goals decide

theorem unescape_escape (c : Char) (rest : List Char) : unescape (escape c ++ rest) = some (c, rest) := by
  rw [escape]
  split
  · subst_vars; rfl
  split
  · subst_vars; rfl
  split
  · subst_vars; rfl
  split
  · subst_vars; rfl
  split
  · subst_vars; rfl
  split
  · subst_vars; rfl
  split
  · subst_vars; rfl
  split
  · rename_i special
    have restored := hex_restored (escaped_small special)
    simp only [cons_append, nil_append, hexDigits, unescape, restored, Char.ofNat_toNat]
  · rename_i other _ _ _ _ _ _
    rw [singleton_append, unescape.eq_def]
    split <;> simp_all

theorem escape_inj {c d : Char} (same : escape c ++ s = escape d ++ t) : c = d ∧ s = t := by
  have read := unescape_escape c s
  rw [same, unescape_escape d t, Option.some.injEq, Prod.mk.injEq] at read
  exact ⟨read.1.symm, read.2.symm⟩

theorem escape_opens (c : Char) : ∃ first rest, escape c = first :: rest ∧ first ≠ '"' := by
  rw [escape]
  split
  · exact ⟨_, _, rfl, by decide⟩
  iterate 7
    split
    · exact ⟨_, _, rfl, by decide⟩
  · exact ⟨c, [], rfl, by assumption⟩

theorem escapes_inj {a b s t : List Char}
    (same : a.flatMap escape ++ '"' :: s = b.flatMap escape ++ '"' :: t) : a = b ∧ s = t := by
  induction a generalizing b with
  | nil =>
    cases b with
    | nil => exact ⟨rfl, (cons.inj same).2⟩
    | cons d b =>
      obtain ⟨first, rest, opens, other⟩ := escape_opens d
      rw [flatMap_cons, opens] at same
      exact absurd (cons.inj same).1.symm other
  | cons c a ih =>
    cases b with
    | nil =>
      obtain ⟨first, rest, opens, other⟩ := escape_opens c
      rw [flatMap_cons, opens] at same
      exact absurd (cons.inj same).1 other
    | cons d b =>
      rw [flatMap_cons, flatMap_cons, append_assoc, append_assoc] at same
      obtain ⟨rfl, behind⟩ := escape_inj same
      obtain ⟨rfl, rest⟩ := ih behind
      exact ⟨rfl, rest⟩

theorem quote_inj {a b : String} (same : quote a ++ s = quote b ++ t) : a = b ∧ s = t := by
  simp only [quote, cons_append, append_assoc, nil_append, cons.injEq, true_and] at same
  obtain ⟨texts, rest⟩ := escapes_inj same
  exact ⟨String.toList_inj.mp texts, rest⟩

end Quote

section Text

mutual
/-- json.Marshal. -/
def text : Json → List Char
  | .null => ['n', 'u', 'l', 'l']
  | .bool true => ['t', 'r', 'u', 'e']
  | .bool false => ['f', 'a', 'l', 's', 'e']
  | .number n => n.text
  | .string s => quote s
  | .array [] => ['[', ']']
  | .array (v :: rest) => '[' :: (text v ++ moreElements rest)
  | .object [] => ['{', '}']
  | .object ((key, v) :: rest) => '{' :: (quote key ++ ':' :: (text v ++ moreMembers rest))

def moreElements : List Json → List Char
  | [] => [']']
  | v :: rest => ',' :: (text v ++ moreElements rest)

def moreMembers : Entries → List Char
  | [] => ['}']
  | (key, v) :: rest => ',' :: (quote key ++ ':' :: (text v ++ moreMembers rest))
end

/-- What comes behind a value: nothing, or a character of no number. -/
def Closed (rest : List Char) : Prop := ∀ c ∈ rest.head?, numeral c = false

def kind : Json → Nat
  | .null => 0
  | .bool _ => 1
  | .number _ => 2
  | .string _ => 3
  | .array _ => 4
  | .object _ => 5

/-- The kind of the value whose text begins so, 6 where none does. -/
def opening (c : Char) : Nat := if c = 'n' then 0
  else if c = 't' || c = 'f' then 1
  else if numeral c then 2
  else if c = '"' then 3
  else if c = '[' then 4
  else if c = '{' then 5
  else 6

theorem numeral_opening {c : Char} (plain : numeral c = true) : opening c = 2 := by
  have other : ∀ d, numeral d = false → c ≠ d := by
    rintro d no rfl
    rw [plain] at no
    cases no
  simp [opening, plain, other 'n' (by decide), other 't' (by decide), other 'f' (by decide)]

theorem text_opens (v : Json) : ∃ first rest, text v = first :: rest ∧ opening first = kind v := by
  cases v with
  | null => exact ⟨_, _, rfl, by decide⟩
  | bool b => cases b <;> exact ⟨_, _, rfl, by simp [kind]; decide⟩
  | number n =>
    obtain ⟨first, rest, opens⟩ := exists_cons_of_ne_nil n.some_
    exact ⟨first, rest, opens, numeral_opening (n.plain first (by rw [opens]; exact mem_cons_self))⟩
  | string s => exact ⟨_, _, rfl, by simp [kind]; decide⟩
  | array elements => cases elements <;> exact ⟨_, _, rfl, by simp [kind]; decide⟩
  | object entries => cases entries <;> exact ⟨_, _, rfl, by simp [kind]; decide⟩

theorem text_open {v : Json} {c : Char} (same : text v ++ s = c :: t) : opening c ≠ 6 := by
  obtain ⟨first, rest, opens, own⟩ := text_opens v
  rw [opens] at same
  rw [← (cons.inj same).1, own]
  cases v <;> simp [kind]

theorem same_kind {a b : Json} (same : text a ++ s = text b ++ t) : kind a = kind b := by
  obtain ⟨c, rest, opens, own⟩ := text_opens a
  obtain ⟨d, rest', opens', own'⟩ := text_opens b
  rw [opens, opens'] at same
  rw [← own, ← own', (cons.inj same).1]

theorem numerals_inj {a b s t : List Char} (plain : ∀ c ∈ a, numeral c = true)
    (plain' : ∀ c ∈ b, numeral c = true) (closed : Closed s) (closed' : Closed t)
    (same : a ++ s = b ++ t) : a = b ∧ s = t := by
  have cut : ∀ {xs ys : List Char}, (∀ c ∈ xs, numeral c = true) → Closed ys →
      (xs ++ ys).takeWhile numeral = xs := by
    intro xs ys all ends
    rw [takeWhile_append_of_pos all]
    cases ys with
    | nil => simp
    | cons y ys => simp [ends y rfl]
  have heads : a = b := by rw [← cut plain closed, same, cut plain' closed']
  subst heads
  exact ⟨rfl, append_cancel_left same⟩

theorem closed_elements (elements : List Json) (rest : List Char) :
    Closed (moreElements elements ++ rest) := by
  cases elements <;> simp [Closed, moreElements, numeral]

theorem closed_members (entries : Entries) (rest : List Char) : Closed (moreMembers entries ++ rest) := by
  cases entries <;> simp [Closed, moreMembers, numeral]

mutual
theorem text_cancel : ∀ (a b : Json) {s t : List Char}, Closed s → Closed t →
    text a ++ s = text b ++ t → a = b ∧ s = t
  | .null, b, s, t, _, _, same => by
    have kinds := same_kind same
    cases b <;> simp [kind] at kinds
    exact ⟨rfl, by simpa [text] using same⟩
  | .bool x, b, s, t, _, _, same => by
    have kinds := same_kind same
    cases b <;> simp [kind] at kinds
    rename_i y
    cases x <;> cases y <;> simp [text] at same ⊢
    · exact same
    · exact same
  | .number n, b, s, t, closed, closed', same => by
    have kinds := same_kind same
    cases b <;> simp [kind] at kinds
    rename_i m
    rw [text, text] at same
    obtain ⟨texts, rest⟩ := numerals_inj n.plain m.plain closed closed' same
    cases n
    cases m
    cases texts
    exact ⟨rfl, rest⟩
  | .string x, b, s, t, _, _, same => by
    have kinds := same_kind same
    cases b <;> simp [kind] at kinds
    rw [text, text] at same
    obtain ⟨rfl, rest⟩ := quote_inj same
    exact ⟨rfl, rest⟩
  | .array [], b, s, t, _, _, same => by
    have kinds := same_kind same
    cases b <;> simp [kind] at kinds
    rename_i elements
    cases elements with
    | nil => exact ⟨rfl, by simpa [text] using same⟩
    | cons w rest =>
      simp only [text, cons_append, append_assoc, cons.injEq, true_and] at same
      exact absurd (by decide) (text_open same.symm)
  | .array (v :: rest), b, s, t, _, _, same => by
    have kinds := same_kind same
    cases b <;> simp [kind] at kinds
    rename_i elements
    cases elements with
    | nil =>
      simp only [text, cons_append, append_assoc, cons.injEq, true_and] at same
      exact absurd (by decide) (text_open same)
    | cons w rest' =>
      have more : moreElements (v :: rest) ++ s = moreElements (w :: rest') ++ t := by
        simpa [text, moreElements] using same
      exact (elements_cancel (v :: rest) (w :: rest') more).imp_left (congrArg Json.array)
  | .object [], b, s, t, _, _, same => by
    have kinds := same_kind same
    cases b <;> simp [kind] at kinds
    rename_i entries
    cases entries with
    | nil => exact ⟨rfl, by simpa [text] using same⟩
    | cons entry rest =>
      obtain ⟨key, w⟩ := entry
      simp [text, quote] at same
  | .object ((key, v) :: rest), b, s, t, _, _, same => by
    have kinds := same_kind same
    cases b <;> simp [kind] at kinds
    rename_i entries
    cases entries with
    | nil => simp [text, quote] at same
    | cons entry rest' =>
      obtain ⟨key', w⟩ := entry
      have more : moreMembers ((key, v) :: rest) ++ s = moreMembers ((key', w) :: rest') ++ t := by
        simpa [text, moreMembers] using same
      exact (members_cancel ((key, v) :: rest) ((key', w) :: rest') more).imp_left (congrArg Json.object)

theorem elements_cancel : ∀ (a b : List Json) {s t : List Char},
    moreElements a ++ s = moreElements b ++ t → a = b ∧ s = t
  | [], b, s, t, same => by
    cases b with
    | nil => exact ⟨rfl, by simpa [moreElements] using same⟩
    | cons w rest => simp [moreElements] at same
  | v :: rest, b, s, t, same => by
    cases b with
    | nil => simp [moreElements] at same
    | cons w rest' =>
      simp only [moreElements, cons_append, append_assoc, cons.injEq, true_and] at same
      obtain ⟨rfl, more⟩ := text_cancel v w (closed_elements _ _) (closed_elements _ _) same
      obtain ⟨rfl, behind⟩ := elements_cancel rest rest' more
      exact ⟨rfl, behind⟩

theorem members_cancel : ∀ (a b : Entries) {s t : List Char},
    moreMembers a ++ s = moreMembers b ++ t → a = b ∧ s = t
  | [], b, s, t, same => by
    cases b with
    | nil => exact ⟨rfl, by simpa [moreMembers] using same⟩
    | cons w rest => simp [moreMembers] at same
  | (key, v) :: rest, b, s, t, same => by
    cases b with
    | nil => simp [moreMembers] at same
    | cons entry rest' =>
      obtain ⟨key', w⟩ := entry
      simp only [moreMembers, cons_append, append_assoc, cons.injEq, true_and] at same
      obtain ⟨rfl, value⟩ := quote_inj same
      obtain ⟨rfl, more⟩ := text_cancel v w (closed_members _ _) (closed_members _ _)
        (cons.inj value).2
      obtain ⟨rfl, behind⟩ := members_cancel rest rest' more
      exact ⟨rfl, behind⟩
end

/-- Values of one text are the same value. -/
theorem text_inj {a b : Json} (same : text a = text b) : a = b := by
  have ended : Closed [] := by simp [Closed]
  exact (text_cancel a b ended ended (by rw [same])).1

end Text

end JsonText
