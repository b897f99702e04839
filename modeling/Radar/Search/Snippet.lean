import Mathlib.Data.List.Infix
import Radar.Base.GoText

/- internal/search/score.go: the part of a long text shown around a match. The match is looked for in
   the lower-cased text and its offset in bytes is used to slice the text as it stands. -/
namespace Search
open GoText List

def maxSnippetRunes : Nat := 180

/-- strings.Index, counted in runes. -/
def firstIndex (text part : List Char) : Option Nat := text.tails.findIdx? fun tail => part.isPrefixOf tail

/-- The length in bytes. -/
def size : List Char → Nat
  | [] => 0
  | rune :: rest => rune.utf8Size + size rest

/-- The runes of the first bytes of a text, a rune cut short counting one for every byte of it,
   `none` where the slice runs past the end. -/
def runesIn : List Char → Nat → Option Nat
  | [], count => if count = 0 then some 0 else none
  | rune :: rest, count =>
    if rune.utf8Size ≤ count then (runesIn rest (count - rune.utf8Size)).map (· + 1)
    else some count

/-- The first and the last rune of the snippet, both of them moved back where the end is passed. -/
def window (length prefixRunes : Nat) : Nat × Nat := let start := prefixRunes - maxSnippetRunes / 2
  let end_ := start + maxSnippetRunes
  if length < end_ then (length - maxSnippetRunes, length) else (start, end_)

def excerpt (runes : List Char) (bounds : Nat × Nat) : String := (if 0 < bounds.1 then "..." else "") ++
  String.ofList ((runes.take bounds.2).drop bounds.1) ++
  (if bounds.2 < runes.length then "..." else "")

section Snippet
variable (lowering : Lowering)

def matchAt (value tok : String) : Option Nat :=
  firstIndex (lowering.toLower value).toList (lowering.toLower tok).toList

/-- byteIdx, of a match behind so many runes. -/
def byteIdx (value : String) (found : Nat) : Nat := size ((lowering.toLower value).toList.take found)

/-- `none` is the panic of a slice out of bounds. -/
def snippetForToken (value tok : String) : Option String :=
  if value.toList.length ≤ maxSnippetRunes then some value
  else match matchAt lowering value tok with
    | none => some (String.ofList (value.toList.take maxSnippetRunes))
    | some found => (runesIn value.toList (byteIdx lowering value found)).map fun prefixRunes =>
        excerpt value.toList (window value.toList.length prefixRunes)

/-- Where the substring that the snippet is built from begins and ends in the value. -/
def builtFrom (value : String) (found : Nat) : Option (Nat × Nat) :=
  if value.toList.length ≤ maxSnippetRunes then some (0, value.toList.length)
  else (runesIn value.toList (byteIdx lowering value found)).map (window value.toList.length)

/-- No panic, and the substring that the snippet shows contains the match. -/
structure Faithful (value tok : String) (found : Nat) (bounds : Nat × Nat) : Prop where
  built : builtFrom lowering value found = some bounds
  shown : snippetForToken lowering value tok = some (excerpt value.toList bounds)
  begins : bounds.1 ≤ found
  ends : found + tok.toList.length ≤ bounds.2
  inside : bounds.2 ≤ value.toList.length

end Snippet

section Bytes
variable {runes : List Char}

/-- So many bytes of a text end `part` bytes into the rune behind its first `whole` ones. -/
structure Reaches (runes : List Char) (count whole part : Nat) : Prop where
  counted : count = size (runes.take whole) + part
  within : (whole = runes.length ∧ part = 0) ∨ ∃ rune, runes[whole]? = some rune ∧ part < rune.utf8Size

theorem size_append (a b : List Char) : size (a ++ b) = size a + size b := by
  induction a with
  | nil => simp [size]
  | cons rune rest ih => rw [cons_append, size, size, ih, Nat.add_assoc]

theorem size_replicate (n : Nat) (rune : Char) : size (replicate n rune) = n * rune.utf8Size := by
  induction n with
  | zero => simp [size]
  | succ n ih => rw [replicate_succ, size, ih, Nat.succ_mul, Nat.add_comm]

theorem size_map {f : Char → Char}
    (steady : ∀ rune ∈ runes, (f rune).utf8Size = rune.utf8Size) : size (runes.map f) = size runes := by
  induction runes with
  | nil => rfl
  | cons rune rest ih =>
    obtain ⟨first, later⟩ := forall_mem_cons.mp steady
    rw [map_cons, size, size, first, ih later]

theorem reaches_first {rune : Char} {rest : List Char} {count part : Nat} :
    Reaches (rune :: rest) count 0 part ↔ count = part ∧ part < rune.utf8Size := by
  constructor
  · intro reached
    refine ⟨by simpa [size] using reached.counted, ?_⟩
    rcases reached.within with ⟨empty, _⟩ | ⟨next, there, small⟩
    · simp at empty
    · simp only [getElem?_cons_zero, Option.some.injEq] at there
      exact there ▸ small
  · rintro ⟨rfl, small⟩
    exact ⟨by simp [size], Or.inr ⟨rune, rfl, small⟩⟩

theorem reaches_later {rune : Char} {rest : List Char} {count whole part : Nat} :
    Reaches (rune :: rest) count (whole + 1) part ↔
      rune.utf8Size ≤ count ∧ Reaches rest (count - rune.utf8Size) whole part := by
  constructor
  · intro reached
    have counted : count = rune.utf8Size + size (rest.take whole) + part := by
      simpa [size] using reached.counted
    have enough : rune.utf8Size ≤ count := by omega
    exact ⟨enough, by omega, by simpa using reached.within⟩
  · rintro ⟨enough, reached⟩
    refine ⟨?_, by simpa using reached.within⟩
    have counted := reached.counted
    simp only [size, take_succ_cons] at counted ⊢
    omega

theorem reaches_end {count whole part : Nat} :
    Reaches [] count whole part ↔ count = 0 ∧ whole = 0 ∧ part = 0 := by
  constructor
  · rintro ⟨counted, ⟨atEnd, none⟩ | ⟨rune, there, _⟩⟩
    · exact ⟨by simpa [size, none] using counted, atEnd, none⟩
    · simp at there
  · rintro ⟨rfl, rfl, rfl⟩
    exact ⟨rfl, Or.inl ⟨rfl, rfl⟩⟩

theorem runesIn_eq {count p : Nat} : runesIn runes count = some p ↔
    ∃ whole part, Reaches runes count whole part ∧ p = whole + part := by
  induction runes generalizing count p with
  | nil =>
    simp only [runesIn, reaches_end]
    constructor
    · intro counted
      by_cases none : count = 0
      · rw [if_pos none] at counted
        exact ⟨0, 0, ⟨none, rfl, rfl⟩, by simpa using counted.symm⟩
      · rw [if_neg none] at counted
        cases counted
    · rintro ⟨whole, part, ⟨rfl, rfl, rfl⟩, rfl⟩
      rfl
  | cons rune rest ih =>
    rw [runesIn]
    by_cases enough : rune.utf8Size ≤ count
    · rw [if_pos enough, Option.map_eq_some_iff]
      constructor
      · rintro ⟨q, counted, rfl⟩
        obtain ⟨whole, part, reached, rfl⟩ := ih.mp counted
        exact ⟨whole + 1, part, reaches_later.mpr ⟨enough, reached⟩, by omega⟩
      · rintro ⟨whole, part, reached, rfl⟩
        cases whole with
        | zero =>
          obtain ⟨same, small⟩ := reaches_first.mp reached
          omega
        | succ whole =>
          exact ⟨whole + part, ih.mpr ⟨whole, part, (reaches_later.mp reached).2, rfl⟩, by omega⟩
    · rw [if_neg enough, Option.some.injEq]
      constructor
      · rintro rfl
        exact ⟨0, count, reaches_first.mpr ⟨rfl, by omega⟩, by omega⟩
      · rintro ⟨whole, part, reached, rfl⟩
        cases whole with
        | zero =>
          have same := (reaches_first.mp reached).1
          omega
        | succ whole => exact absurd (reaches_later.mp reached).1 enough

theorem runesIn_beyond {count : Nat} (past : size runes < count) : runesIn runes count = none := by
  induction runes generalizing count with
  | nil => exact if_neg (Nat.ne_of_gt past)
  | cons rune rest ih =>
    rw [size] at past
    rw [runesIn, if_pos (by omega), ih (by omega), Option.map_none]

end Bytes

section Index

/-- The first place at which the part is read. -/
theorem firstIndex_spec {text part : List Char} {found : Nat} (at_ : firstIndex text part = some found) :
    part <+: text.drop found ∧ ∀ earlier < found, ¬ part <+: text.drop earlier := by
  obtain ⟨inside, here, least⟩ := findIdx?_eq_some_iff_getElem.mp at_
  simp only [getElem_tails, isPrefixOf_iff_prefix] at here least
  exact ⟨here, fun earlier before => by simpa using least earlier before⟩

theorem firstIndex_single {c : Char} {before : List Char} (absent : c ∉ before) (after : List Char) :
    firstIndex (before ++ c :: after) [c] = some before.length := by
  rw [firstIndex, findIdx?_eq_some_iff_getElem]
  refine ⟨by simp only [length_tails, length_append]; omega, ?_, ?_⟩
  · simp [getElem_tails]
  · intro earlier sooner
    have other : c ≠ before[earlier] := fun same => absent (same ▸ getElem_mem sooner)
    rw [getElem_tails, drop_eq_getElem_cons (by simp; omega), getElem_append_left sooner]
    simp [other]

end Index

section Window
variable {lowering : Lowering} {value tok : String} {found : Nat} {length prefixRunes : Nat}

theorem match_inside (at_ : matchAt lowering value tok = some found) :
    found + tok.toList.length ≤ value.toList.length ∨ tok.toList.length = 0 := by
  have short := (firstIndex_spec at_).1.length_le
  simp only [Lowering.toLower, String.toList_ofList, length_map, length_drop] at short
  omega

theorem window_past (past : length < prefixRunes - 90 + 180) :
    window length prefixRunes = (length - 180, length) := if_pos past

theorem window_within (within : ¬ length < prefixRunes - 90 + 180) :
    window length prefixRunes = (prefixRunes - 90, prefixRunes - 90 + 180) := if_neg within

theorem window_holds {length prefixRunes found covered : Nat} (long : 180 < length)
    (inside : found + covered ≤ length) :
    ((window length prefixRunes).1 ≤ found ∧ found + covered ≤ (window length prefixRunes).2) ↔
      (prefixRunes ≤ found + 90 ∨ length ≤ found + 180) ∧
      (found + covered ≤ prefixRunes + 90 ∨ found + covered ≤ 180) := by
  by_cases past : length < prefixRunes - 90 + 180
  · rw [window_past past]
    simp only
    omega
  · rw [window_within past]
    simp only
    omega

theorem window_inside : (window length prefixRunes).2 ≤ length := by
  by_cases past : length < prefixRunes - 90 + 180
  · rw [window_past past]
  · rw [window_within past]
    exact Nat.le_of_not_lt past

theorem excerpt_whole (text : String) : excerpt text.toList (0, text.toList.length) = text := by
  simp [excerpt]

/-- Where there is a match, the snippet is cut at the bounds. -/
theorem snippet_cut (at_ : matchAt lowering value tok = some found) : snippetForToken lowering value tok =
      (builtFrom lowering value found).map (excerpt value.toList) := by
  rw [snippetForToken, builtFrom]
  by_cases short : value.toList.length ≤ maxSnippetRunes
  · rw [if_pos short, if_pos short, Option.map_some, excerpt_whole]
  · rw [if_neg short, if_neg short, at_, Option.map_map]
    rfl

/-- The value is short; or the bytes of the lower-cased text before the match, counted off in the
   value itself, end within it, at most half a snippet behind the match (or the value ends a
   snippet behind it) and at most half a snippet before the match's end (or a snippet holds all of
   the value up to there). -/
def Fits (lowering : Lowering) (value tok : String) (found : Nat) : Prop := value.toList.length ≤ 180 ∨
  ∃ whole part, Reaches value.toList (size ((lowering.toLower value).toList.take found)) whole part ∧
    (whole + part ≤ found + 90 ∨ value.toList.length ≤ found + 180) ∧
    (found + tok.toList.length ≤ whole + part + 90 ∨ found + tok.toList.length ≤ 180)

theorem reaches_whole (runes : List Char) (whole : Nat) (inside : whole ≤ runes.length) :
    Reaches runes (size (runes.take whole)) whole 0 := by
  refine ⟨rfl, ?_⟩
  rcases Nat.lt_or_eq_of_le inside with before | atEnd
  · exact Or.inr ⟨runes[whole], getElem?_eq_getElem before, Char.utf8Size_pos _⟩
  · exact Or.inl ⟨atEnd, rfl⟩

/-- Where lower-casing keeps the length of what is before the match, a token of at most half a
   snippet always fits. -/
theorem steady_fits (inside : found ≤ value.toList.length)
    (steady : ∀ rune ∈ value.toList.take found, (lowering.lower rune).utf8Size = rune.utf8Size)
    (brief : tok.toList.length ≤ 90) : Fits lowering value tok found := by
  have same : size ((lowering.toLower value).toList.take found) = size (value.toList.take found) := by
    rw [Lowering.toLower, String.toList_ofList, ← map_take]
    exact size_map steady
  have reached := reaches_whole value.toList found inside
  exact Or.inr ⟨found, 0, same ▸ reached, by omega, by omega⟩

/-- The snippet is taken, and shows the match, exactly where the bytes before the match fit. -/
theorem snippet_faithful (at_ : matchAt lowering value tok = some found) (named : tok ≠ "") :
    (∃ bounds, Faithful lowering value tok found bounds) ↔ Fits lowering value tok found := by
  have some_ : tok.toList.length ≠ 0 := by simpa using named
  have inside := (match_inside at_).resolve_right some_
  have cut := snippet_cut at_
  by_cases short : value.toList.length ≤ maxSnippetRunes
  · have built : builtFrom lowering value found = some (0, value.toList.length) := if_pos short
    rw [built] at cut
    exact iff_of_true ⟨_, built, cut, Nat.zero_le found, inside, le_refl _⟩ (Or.inl short)
  · have built : builtFrom lowering value found =
        (runesIn value.toList (byteIdx lowering value found)).map (window value.toList.length) :=
      if_neg short
    have long : maxSnippetRunes < value.toList.length := by omega
    constructor
    · rintro ⟨bounds, faithful⟩
      rw [faithful.built] at built
      obtain ⟨prefixRunes, counted, rfl⟩ := Option.map_eq_some_iff.mp built.symm
      obtain ⟨whole, part, reached, rfl⟩ := runesIn_eq.mp counted
      exact Or.inr ⟨whole, part, reached, (window_holds long inside).mp ⟨faithful.begins, faithful.ends⟩⟩
    · rintro (fits | ⟨whole, part, reached, near⟩)
      · exact absurd fits short
      · have counted := runesIn_eq.mpr ⟨whole, part, reached, rfl⟩
        rw [byteIdx, counted, Option.map_some] at built
        rw [built] at cut
        obtain ⟨begins, ends⟩ := (window_holds long inside).mpr near
        exact ⟨_, built, cut, begins, ends, window_inside⟩

theorem panic_unfaithful (panics : snippetForToken lowering value tok = none) :
    ¬ ∃ bounds, Faithful lowering value tok found bounds := by
  rintro ⟨bounds, faithful⟩
  exact Option.some_ne_none _ (faithful.shown.symm.trans panics)

end Window

section Padded
variable {lowering : Lowering} {c : Char} {n : Nat}

/-- One letter over and over, and the match behind it. -/
def padded (c : Char) (n : Nat) : String := String.ofList (List.replicate n c ++ ['x'])

theorem padded_length : (padded c n).toList.length = n + 1 := by simp [padded]

theorem padded_lower : (lowering.toLower (padded c n)).toList =
    replicate n (lowering.lower c) ++ ['x'] := by
  have x : lowering.lower 'x' = 'x' := lowering.ascii 'x' (by decide)
  simp [Lowering.toLower, padded, x]

theorem padded_match (other : lowering.lower c ≠ 'x') : matchAt lowering (padded c n) "x" = some n := by
  have x : (lowering.toLower "x").toList = ['x'] := padded_lower (c := c) (n := 0)
  have absent : 'x' ∉ replicate n (lowering.lower c) := by
    intro member
    exact other (eq_of_mem_replicate member).symm
  rw [matchAt, padded_lower, x, firstIndex_single absent, length_replicate]

theorem padded_bytes : byteIdx lowering (padded c n) n = n * (lowering.lower c).utf8Size := by
  rw [byteIdx, padded_lower, take_append_of_le_length (by simp)]
  simp [size_replicate]

theorem padded_size : size (padded c n).toList = n * c.utf8Size + 1 := by
  rw [padded, String.toList_ofList, size_append, size_replicate]
  rfl

theorem padded_inside : n ≤ (padded c n).toList.length := by
  rw [padded_length]
  omega

theorem padded_front : (padded c n).toList.take n = replicate n c := by
  rw [padded, String.toList_ofList, take_append_of_le_length (by simp)]
  simp

theorem plain_prefix_faithful : ∃ bounds, Faithful asciiLowering (padded 'a' 200) "x" 200 bounds := by
  have steady : ∀ rune ∈ (padded 'a' 200).toList.take 200,
      (asciiLowering.lower rune).utf8Size = rune.utf8Size := by
    intro rune member
    rw [padded_front] at member
    rw [List.eq_of_mem_replicate member]
    decide
  exact (snippet_faithful (padded_match (by decide)) (by decide)).mpr
    (steady_fits padded_inside steady (by decide))

/-- A letter of two bytes with a lower case of three. -/
def grownLowering : Lowering where
  lower c := if c = 'Ⱥ' then 'ⱥ' else c.toLower
  ascii c plain := by
    rw [if_neg]
    rintro rfl
    exact absurd plain (by decide)

/-- A letter that grows puts the match past the end of the value, where the value is long. -/
theorem padded_panics (other : lowering.lower c ≠ 'x') (long : 180 ≤ n)
    (grows : n * c.utf8Size + 1 < n * (lowering.lower c).utf8Size) :
    snippetForToken lowering (padded c n) "x" = none := by
  have beyond : runesIn (padded c n).toList (byteIdx lowering (padded c n) n) = none := by
    apply runesIn_beyond
    rwa [padded_bytes, padded_size]
  have lengthy : ¬ (padded c n).toList.length ≤ maxSnippetRunes := by
    rw [padded_length, maxSnippetRunes]
    omega
  rw [snippetForToken, if_neg lengthy, padded_match other]
  simp only [beyond, Option.map_none]

/-- 200 letters of two bytes before the match, and a byte offset of 600. -/
theorem grown_prefix_panics : matchAt grownLowering (padded 'Ⱥ' 200) "x" = some 200 ∧
    snippetForToken grownLowering (padded 'Ⱥ' 200) "x" = none ∧
    ¬ ∃ bounds, Faithful grownLowering (padded 'Ⱥ' 200) "x" 200 bounds := by
  have panics : snippetForToken grownLowering (padded 'Ⱥ' 200) "x" = none :=
    padded_panics (by decide) (by decide) (by decide)
  exact ⟨padded_match (by decide), panics, panic_unfaithful panics⟩

end Padded

end Search
