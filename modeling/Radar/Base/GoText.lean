import Mathlib.Data.List.Basic
import Mathlib.Data.List.TakeWhile

/- Go's string routines on character lists, and the few facts about them the rest uses. -/
namespace GoText
open List
variable {sep : Char} {pieces : List (List Char)} {a b : List (List Char)}

/-- strings.Split for a one-character separator. -/
def split (sep : Char) (s : String) : List String := (s.toList.splitOn sep).map String.ofList

/-- unicode.IsSpace. -/
def isSpace (c : Char) : Bool :=
  c ∈ ['\t', '\n', '\x0b', '\x0c', '\r', ' ', '\u0085', '\u00a0', '\u1680', '\u2028', '\u2029',
    '\u202f', '\u205f', '\u3000'] || ('\u2000' ≤ c && c ≤ '\u200a')

def trimSpace (s : String) : String :=
  String.ofList ((s.toList.dropWhile isSpace).reverse.dropWhile isSpace).reverse

def hasPrefix (s prefix_ : String) : Bool := prefix_.toList.isPrefixOf s.toList

/-- strings.CutPrefix, `none` where the prefix is not there. -/
def cutPrefix (s prefix_ : String) : Option String :=
  if hasPrefix s prefix_ then some (String.ofList (s.toList.drop prefix_.toList.length)) else none

/-- strings.TrimPrefix. -/
def trimPrefix (s prefix_ : String) : String := (cutPrefix s prefix_).getD s

/-- strings.Contains. -/
def contains (s part : String) : Bool := s.toList.tails.any fun t => part.toList.isPrefixOf t

/-- strings.ToLower, character by character. -/
structure Lowering where
  lower : Char → Char
  ascii : ∀ c, c.toNat < 128 → lower c = c.toLower

def Lowering.toLower (l : Lowering) (s : String) : String := String.ofList (s.toList.map l.lower)

/-- ASCII text without capitals is as it is in lower case. -/
theorem Lowering.toLower_plain (l : Lowering) {s : String}
    (plain : ∀ c ∈ s.toList, c.toNat < 128 ∧ c.toLower = c) : l.toLower s = s := by
  have chars : s.toList.map l.lower = s.toList := by
    refine (map_congr_left fun c member => ?_).trans (map_id _)
    obtain ⟨small, same⟩ := plain c member
    exact (l.ascii c small).trans same
  rw [Lowering.toLower, chars, String.ofList_toList]

theorem toLower_ascii (c : Char) (_ : c.toNat < 128) : c.toLower = c.toLower := rfl

/-- Lower case within ASCII. -/
def asciiLowering : Lowering := ⟨Char.toLower, toLower_ascii⟩

/-- strings.ReplaceAll of one character. -/
def replaceChar (c : Char) (by_ : String) (s : String) : String :=
  String.ofList (s.toList.flatMap fun d => if d = c then by_.toList else [d])

/-- strings.TrimSuffix for one character. -/
def trimSuffix (suffix : Char) (s : String) : String :=
  if s.toList.getLast? = some suffix then String.ofList s.toList.dropLast else s

/-- strings.SplitN with a limit of two, `none` where it yields one part only. -/
def cut (sep : Char) (s : String) : Option (String × String) :=
  match s.toList.dropWhile (fun c => c != sep) with
  | [] => none
  | _ :: after => some (String.ofList (s.toList.takeWhile fun c => c != sep), String.ofList after)

/-- The number decimal digits write; nothing where another character or no digit stands. -/
def decimalValue (digits : List Char) : Option Nat := if digits ≠ [] ∧ digits.all Char.isDigit then
    some (digits.foldl (fun n c => 10 * n + (c.toNat - 48)) 0)
  else none

/-- strconv.ParseInt to base 10 and 64 bits, `none` for an error. -/
def parseInt64 (s : String) : Option Int := match s.toList with
  | '-' :: digits => (decimalValue digits).bind fun n => if n ≤ 0x8000000000000000 then some (-(n : Int)) else none
  | '+' :: digits => (decimalValue digits).bind fun n => if n < 0x8000000000000000 then some (n : Int) else none
  | digits => (decimalValue digits).bind fun n => if n < 0x8000000000000000 then some (n : Int) else none

theorem decimalValue_toString (n : Nat) : decimalValue (toString n).toList = some n := by
  have digits : (toString n).toList = Nat.toDigits 10 n := Nat.toList_repr
  have all : (Nat.toDigits 10 n).all Char.isDigit = true :=
    all_eq_true.mpr fun c member => Nat.isDigit_of_mem_toDigits (by decide) (by decide) member
  have value := Nat.ofDigitChars_toDigits (b := 10) (n := n) (by decide) (by decide)
  rw [Nat.ofDigitChars_eq_foldl] at value
  rw [digits, decimalValue, if_pos ⟨Nat.toDigits_ne_nil, all⟩]
  exact congrArg some value

/-- Two numbers written alike are one. -/
theorem toString_inj {m n : Nat} (same : toString m = toString n) : m = n := by
  have values := decimalValue_toString m
  rw [same, decimalValue_toString] at values
  exact (Option.some.inj values).symm

theorem cut_append {before after : String} (absent : sep ∉ before.toList) :
    cut sep (before ++ String.ofList [sep] ++ after) = some (before, after) := by
  have skipped : ∀ c ∈ before.toList, (c != sep) = true := by
    intro c member
    exact bne_iff_ne.mpr fun same => absent (same ▸ member)
  have dropped : (before.toList ++ sep :: after.toList).dropWhile (fun c => c != sep) =
      sep :: after.toList := by
    rw [dropWhile_append_of_pos skipped]
    simp
  have taken : (before.toList ++ sep :: after.toList).takeWhile (fun c => c != sep) = before.toList := by
    rw [takeWhile_append_of_pos skipped]
    simp
  simp [cut, String.toList_append, dropped, taken]

theorem cut_spec {s before after : String} (found : cut sep s = some (before, after)) :
    s = before ++ String.ofList [sep] ++ after := by
  unfold cut at found
  cases rest : s.toList.dropWhile fun c => c != sep with
  | nil => rw [rest] at found; cases found
  | cons c later =>
    rw [rest] at found
    have whole := takeWhile_append_dropWhile (p := fun c => c != sep) (l := s.toList)
    have mark : c = sep := by simpa [rest] using head?_dropWhile_not (fun c => c != sep) s.toList
    rw [rest, mark] at whole
    cases found
    apply String.toList_injective
    simpa using whole.symm

theorem cut_found {s : String} (member : sep ∈ s.toList) : ∃ parts, cut sep s = some parts := by
  unfold cut
  cases rest : s.toList.dropWhile fun c => c != sep with
  | nil => exact absurd (dropWhile_eq_nil_iff.mp rest sep member) (by simp)
  | cons c later => exact ⟨_, rfl⟩

theorem contains_of_prefix {s part : String} (starts : part.toList.isPrefixOf s.toList = true) :
    contains s part = true := by
  rw [contains]
  cases chars : s.toList with
  | nil => rw [chars] at starts; simp [starts]
  | cons c rest => rw [chars] at starts; simp [starts]

/-- strings.Join for a one-character separator, on character lists. -/
def join (sep : Char) (pieces : List (List Char)) : List Char := [sep].intercalate pieces

theorem split_join (some : pieces ≠ []) :
    (join sep pieces).splitOn sep = pieces.flatMap (splitOn sep) := by
  induction pieces with
  | nil => contradiction
  | cons piece rest ih =>
    cases rest with
    | nil => simp [join]
    | cons next more =>
      have tail := ih (cons_ne_nil next more)
      simp only [join, intercalate_cons_cons] at tail ⊢
      rw [append_assoc, singleton_append, splitOn_append_cons_self, tail]
      rfl

/-- Two non-empty lists join to one text exactly when the separator breaks their pieces into
   the same parts. -/
theorem join_eq_iff (ha : a ≠ []) (hb : b ≠ []) :
    join sep a = join sep b ↔ a.flatMap (splitOn sep) = b.flatMap (splitOn sep) := by
  rw [← split_join ha, ← split_join hb]
  constructor
  · intro same
    rw [same]
  · intro same
    have restored := congrArg [sep].intercalate same
    simpa using restored

theorem join_lacks {sep c : Char} (differ : c ≠ sep)
    (lacking : ∀ piece ∈ pieces, c ∉ piece) : c ∉ join sep pieces := by
  induction pieces with
  | nil => simp [join]
  | cons piece rest ih =>
    have tail := ih fun p member => lacking p (mem_cons_of_mem piece member)
    have head := lacking piece mem_cons_self
    cases rest with
    | nil => simpa [join] using head
    | cons next more =>
      simp only [join, intercalate_cons_cons] at tail ⊢
      simp [head, tail, differ]

theorem whole_pieces
    (plain : ∀ piece ∈ pieces, sep ∉ piece) : pieces.flatMap (splitOn sep) = pieces := by
  induction pieces with
  | nil => rfl
  | cons piece rest ih =>
    rw [flatMap_cons, splitOn_eq_singleton (plain piece mem_cons_self),
      ih fun p member => plain p (mem_cons_of_mem piece member)]
    rfl

/-- Of two non-empty lists whose pieces do not hold the separator, joining loses nothing. -/
theorem join_some_inj (ha : a ≠ []) (hb : b ≠ [])
    (plain : ∀ piece ∈ a, sep ∉ piece) (plain' : ∀ piece ∈ b, sep ∉ piece)
    (same : join sep a = join sep b) : a = b := by
  have parts := (join_eq_iff ha hb).mp same
  rwa [whole_pieces plain, whole_pieces plain'] at parts

theorem join_empty (plain : ∀ piece ∈ pieces, piece ≠ [] ∧ sep ∉ piece) (empty : join sep pieces = []) :
    pieces = [] := by
  by_contra some
  have parts : (join sep pieces).splitOn sep = pieces.flatMap (splitOn sep) := split_join some
  rw [empty, whole_pieces fun piece member => (plain piece member).2, splitOn_nil] at parts
  exact (plain [] (by rw [← parts]; simp)).1 rfl

/-- Of lists whose pieces are neither empty nor hold the separator, joining loses nothing. -/
theorem join_pieces_inj
    (plain : ∀ piece ∈ a, piece ≠ [] ∧ sep ∉ piece) (plain' : ∀ piece ∈ b, piece ≠ [] ∧ sep ∉ piece)
    (same : join sep a = join sep b) : a = b := by
  by_cases none : a = []
  · subst none
    exact (join_empty plain' same.symm).symm
  · have other : b ≠ [] := by
      intro empty
      subst empty
      exact none (join_empty plain same)
    exact join_some_inj none other (fun piece member => (plain piece member).2)
      (fun piece member => (plain' piece member).2) same

/-- A text before its first separator, and the rest behind it. -/
theorem sep_inj {a b x y : List Char} (plain : sep ∉ a) (plain' : sep ∉ b)
    (same : a ++ sep :: x = b ++ sep :: y) : a = b ∧ x = y := by
  induction a generalizing b with
  | nil =>
    cases b with
    | nil => exact ⟨rfl, cons.inj same |>.2⟩
    | cons d b =>
      have first := (cons.inj same).1
      exact absurd (first ▸ mem_cons_self) plain'
  | cons c a ih =>
    cases b with
    | nil =>
      have first := (cons.inj same).1
      exact absurd (first ▸ mem_cons_self) plain
    | cons d b =>
      obtain ⟨first, rest⟩ := cons.inj same
      obtain ⟨heads, tails⟩ := ih (fun member => plain (mem_cons_of_mem c member))
        (fun member => plain' (mem_cons_of_mem d member)) rest
      exact ⟨by rw [first, heads], tails⟩

/-- Two texts joined by a slash, as keys are, when the first has none of its own. -/
theorem slash_inj {a b x y : String} (plain : '/' ∉ a.toList) (plain' : '/' ∉ b.toList)
    (same : a ++ "/" ++ x = b ++ "/" ++ y) : a = b ∧ x = y := by
  have texts := congrArg String.toList same
  simp only [String.toList_append] at texts
  have slash : "/".toList = ['/'] := by decide
  rw [slash, append_assoc, append_assoc, singleton_append, singleton_append] at texts
  obtain ⟨before, after⟩ := sep_inj plain plain' texts
  exact ⟨String.toList_injective before, String.toList_injective after⟩

end GoText
