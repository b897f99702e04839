import Mathlib.Data.List.Basic

/- The words of a command line as a shell splits and unquotes it, where the line holds nothing that the
   shell would act on. -/
namespace ShellWords
open List

/-- The characters that mean something to a shell. -/
structure Signs (α : Type) where
  single : α
  double : α
  escape : α
  newline : α
  blank : α → Bool
  /-- Acted on where it is not quoted at all. -/
  active : α → Bool
  /-- Acted on in double quotes too. -/
  live : α → Bool
  single_double : single ≠ double
  escape_single : escape ≠ single
  escape_double : escape ≠ double
  single_newline : single ≠ newline

/-- Outside quotes, within them, and behind an escape outside or within double quotes. -/
inductive Mode where
  | plain | single | double | escaped | doubleEscaped
  deriving DecidableEq

def extend {α : Type} (word : Option (List α)) (text : List α) : Option (List α) := some (word.getD [] ++ text)

theorem extend_extend {α : Type} (word : Option (List α)) (a b : List α) :
    extend (extend word a) b = extend word (a ++ b) := by
  rw [extend, extend, extend, Option.getD_some, append_assoc]

section Reading
variable {α : Type} [DecidableEq α] (g : Signs α)

/-- The words from here on; the word that has been begun is given. Nothing where the line ends within quotes or
    holds a character that the shell acts on. -/
def read : Mode → Option (List α) → List α → Option (List (List α))
  | .plain, word, [] => some word.toList
  | _, _, [] => none
  | .plain, word, c :: rest =>
    if c = g.single then read .single (extend word []) rest
    else if c = g.double then read .double (extend word []) rest
    else if c = g.escape then read .escaped word rest
    else if g.blank c then (read .plain none rest).map (word.toList ++ ·)
    else if g.active c then none
    else read .plain (extend word [c]) rest
  | .single, word, c :: rest =>
    if c = g.single then read .plain word rest else read .single (extend word [c]) rest
  | .double, word, c :: rest =>
    if c = g.double then read .plain word rest
    else if c = g.escape then read .doubleEscaped word rest
    else if g.live c then none
    else read .double (extend word [c]) rest
  | .escaped, word, c :: rest =>
    if c = g.newline then read .plain word rest else read .plain (extend word [c]) rest
  | .doubleEscaped, word, c :: rest =>
    if c = g.newline then read .double word rest
    else if c = g.double ∨ c = g.escape ∨ g.live c then read .double (extend word [c]) rest
    else read .double (extend word [g.escape, c]) rest

def words (line : List α) : Option (List (List α)) := read g .plain none line

/-- A text in single quotes, each of its own written as an escaped one between two quoted parts. -/
def quote (text : List α) : List α :=
  g.single :: text.flatMap (fun c => if c = g.single then [g.single, g.escape, g.single, g.single] else [c]) ++
    [g.single]

/-- A character that stands for itself. -/
def inert (c : α) : Bool :=
  c ≠ g.single ∧ c ≠ g.double ∧ c ≠ g.escape ∧ g.blank c = false ∧ g.active c = false

end Reading

section Quoting
variable {α : Type} [DecidableEq α] {g : Signs α}

theorem read_end (word : Option (List α)) : read g .plain word [] = some word.toList := by
  cases word <;> rfl

theorem read_open (word : Option (List α)) (rest : List α) :
    read g .plain word (g.single :: rest) = read g .single (extend word []) rest := by
  rw [read, if_pos rfl]

theorem read_close (word : Option (List α)) (rest : List α) :
    read g .single word (g.single :: rest) = read g .plain word rest := by
  rw [read, if_pos rfl]

theorem read_held (word : Option (List α)) {c : α} (other : c ≠ g.single) (rest : List α) :
    read g .single word (c :: rest) = read g .single (extend word [c]) rest := by
  rw [read, if_neg other]

theorem read_escaped (word : Option (List α)) (rest : List α) :
    read g .plain word (g.escape :: g.single :: rest) = read g .plain (extend word [g.single]) rest := by
  rw [read, if_neg g.escape_single, if_neg g.escape_double, if_pos rfl, read, if_neg g.single_newline]

theorem read_inert (word : Option (List α)) {c : α} (plain : inert g c = true) (rest : List α) :
    read g .plain word (c :: rest) = read g .plain (extend word [c]) rest := by
  obtain ⟨single, double, escape, blank, active⟩ := of_decide_eq_true plain
  rw [read, if_neg single, if_neg double, if_neg escape, if_neg (by simp [blank]), if_neg (by simp [active])]

theorem read_blank (word : Option (List α)) {c : α} (blank : g.blank c = true) (single : c ≠ g.single)
    (double : c ≠ g.double) (escape : c ≠ g.escape) (rest : List α) :
    read g .plain word (c :: rest) = (read g .plain none rest).map (word.toList ++ ·) := by
  rw [read, if_neg single, if_neg double, if_neg escape, if_pos blank]

/-- What stands in the quotes is read back, whatever follows them. -/
theorem read_quoted (text : List α) (word : Option (List α)) (rest : List α) :
    read g .single (extend word [])
        (text.flatMap (fun c => if c = g.single then [g.single, g.escape, g.single, g.single] else [c]) ++
          g.single :: rest) =
      read g .plain (extend word text) rest := by
  induction text generalizing word with
  | nil => rw [flatMap_nil, nil_append, read_close]
  | cons c text ih =>
    have next := ih (extend word [c])
    rw [extend_extend, extend_extend, append_nil, singleton_append] at next
    rw [flatMap_cons, append_assoc]
    by_cases same : c = g.single
    · subst same
      rw [if_pos rfl]
      simp only [cons_append, nil_append]
      rw [read_close, read_escaped, read_open, extend_extend, extend_extend]
      exact next
    · rw [if_neg same, singleton_append, read_held _ same, extend_extend]
      exact next

theorem read_quote (word : Option (List α)) (text rest : List α) :
    read g .plain word (quote g text ++ rest) = read g .plain (extend word text) rest := by
  rw [quote, cons_append, cons_append, append_assoc, singleton_append, read_open, read_quoted]

theorem read_bare (word : Option (List α)) {text : List α} (plain : ∀ c ∈ text, inert g c = true) (rest : List α) :
    read g .plain (extend word []) (text ++ rest) = read g .plain (extend word text) rest := by
  induction text generalizing word with
  | nil => rw [nil_append]
  | cons c text ih =>
    have next := ih (extend word [c]) fun d member => plain d (mem_cons_of_mem c member)
    rw [extend_extend, extend_extend, append_nil, singleton_append] at next
    rw [cons_append, read_inert _ (plain c mem_cons_self), extend_extend]
    exact next

end Quoting

section Lines
variable {α : Type} [DecidableEq α] {g : Signs α}

/-- A word as it is written on a line: as it stands or quoted. -/
inductive Piece (α : Type) where
  | bare (text : List α)
  | quoted (text : List α)

def Piece.value : Piece α → List α
  | .bare text => text
  | .quoted text => text

def Piece.render (g : Signs α) : Piece α → List α
  | .bare text => text
  | .quoted text => quote g text

def Piece.Sound (g : Signs α) : Piece α → Prop
  | .bare text => text ≠ [] ∧ ∀ c ∈ text, inert g c = true
  | .quoted _ => True

def line (g : Signs α) (sep : α) (pieces : List (Piece α)) : List α :=
  [sep].intercalate (pieces.map (Piece.render g))

theorem read_piece {piece : Piece α} (sound : piece.Sound g) (rest : List α) :
    read g .plain none (piece.render g ++ rest) = read g .plain (some piece.value) rest := by
  cases piece with
  | quoted text => exact read_quote none text rest
  | bare text =>
    obtain ⟨some_, plain⟩ := sound
    obtain ⟨c, more, rfl⟩ := exists_cons_of_ne_nil some_
    refine (read_inert none (plain c mem_cons_self) (more ++ rest)).trans ?_
    exact read_bare (some [c]) (fun d member => plain d (mem_cons_of_mem c member)) rest

/-- A line of words, each bare or quoted, is read as these words. -/
theorem words_line {sep : α} (blank : g.blank sep = true) (single : sep ≠ g.single) (double : sep ≠ g.double)
    (escape : sep ≠ g.escape) {pieces : List (Piece α)} (sound : ∀ piece ∈ pieces, piece.Sound g) :
    words g (line g sep pieces) = some (pieces.map Piece.value) := by
  induction pieces with
  | nil => rfl
  | cons piece pieces ih =>
    have first := @read_piece _ _ g piece (sound piece mem_cons_self)
    have rest := ih fun other member => sound other (mem_cons_of_mem piece member)
    cases pieces with
    | nil =>
      rw [words, line, map_singleton, intercalate_singleton, ← append_nil (piece.render g), first,
        read_end]
      rfl
    | cons next pieces =>
      rw [words, line, map_cons, map_cons, intercalate_cons_cons, append_assoc, first,
        singleton_append, read_blank _ blank single double escape]
      rw [words, line, map_cons] at rest
      rw [rest]
      rfl

end Lines
end ShellWords
