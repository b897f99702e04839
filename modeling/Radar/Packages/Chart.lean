import Mathlib.Data.List.Basic

/- splitChart of pkg/packages/aggregate.go: the name and the version in a chart label. -/
namespace Chart
variable {s : List Char}

/-- A digit, or a v and a digit. -/
def startsVersion : List Char → Bool
  | [] => false
  | c :: rest => c.isDigit || (c == 'v' && (rest.head?.any Char.isDigit))

/-- A hyphen of the text with what looks like a version behind it. -/
def CutAt (s : List Char) (i : Nat) : Prop := s[i]? = some '-' ∧ startsVersion (s.drop (i + 1)) = true

instance (s : List Char) (i : Nat) : Decidable (CutAt s i) := inferInstanceAs (Decidable (_ ∧ _))

/-- The loop, whose index runs backwards. -/
def splitFrom (s : List Char) : Nat → List Char × List Char
  | 0 => (s, [])
  | i + 1 =>
    if CutAt s i then (s.take i, s.drop (i + 1)) else splitFrom s i

def splitChart (s : String) : String × String := if s = "" then ("", "")
  else
    let parts := splitFrom s.toList (s.toList.length - 1)
    (String.ofList parts.1, String.ofList parts.2)

/-- The loop stops at the last such hyphen. -/
theorem split_last {i n : Nat} (cut : CutAt s i) (inside : i < n)
    (last : ∀ j, i < j → j < n → ¬ CutAt s j) : splitFrom s n = (s.take i, s.drop (i + 1)) := by
  induction n with
  | zero => omega
  | succ n ih =>
    rw [splitFrom]
    by_cases here : i = n
    · subst here
      rw [if_pos cut]
    · rw [if_neg (last n (by omega) (by omega))]
      exact ih (by omega) fun j after before => last j after (by omega)

theorem split_exists {i n : Nat} (cut : CutAt s i) (inside : i < n) :
    ∃ j, CutAt s j ∧ i ≤ j ∧ j < n ∧ splitFrom s n = (s.take j, s.drop (j + 1)) := by
  induction n with
  | zero => omega
  | succ n ih =>
    rw [splitFrom]
    by_cases here : CutAt s n
    · exact ⟨n, here, by omega, by omega, if_pos here⟩
    · rw [if_neg here]
      have earlier : i < n := by
        by_contra reached
        obtain rfl : i = n := by omega
        exact here cut
      obtain ⟨j, cut', after, before, same⟩ := ih earlier
      exact ⟨j, cut', after, by omega, same⟩

theorem cut_length {i : Nat} (cut : CutAt s i) : i + 1 < s.length := by
  by_contra short
  have nothing : s.drop (i + 1) = [] := List.drop_eq_nil_of_le (by omega)
  obtain ⟨_, starts⟩ := cut
  rw [nothing] at starts
  exact absurd starts (by decide)

section Label
variable (name version : List Char)

/-- A hyphen behind the one that joins the two parts is a hyphen of the version. -/
theorem cut_label (j : Nat) : CutAt (name ++ '-' :: version) (name.length + 1 + j) ↔ CutAt version j := by
  have at_ : (name ++ '-' :: version)[name.length + 1 + j]? = version[j]? := by
    rw [List.getElem?_append_right (by omega)]
    rw [show name.length + 1 + j - name.length = j + 1 by omega, List.getElem?_cons_succ]
  have rest : (name ++ '-' :: version).drop (name.length + 1 + j + 1) = version.drop (j + 1) := by
    rw [List.drop_append, List.drop_eq_nil_of_le (by omega), List.nil_append,
      show name.length + 1 + j + 1 - name.length = j + 1 + 1 by omega, List.drop_succ_cons]
  rw [CutAt, CutAt, at_, rest]

theorem cut_joined (starts : startsVersion version = true) :
    CutAt (name ++ '-' :: version) name.length := by
  constructor
  · simp
  · rw [List.drop_append, List.drop_eq_nil_of_le (by omega)]
    simpa using starts

theorem drop_joined : (name ++ '-' :: version).drop (name.length + 1) = version := by
  rw [List.drop_append, List.drop_eq_nil_of_le (by omega)]
  simp

/-- What is split off first is the name, or longer than it. -/
theorem split_label (starts : startsVersion version = true) : ((∀ j, ¬ CutAt version j) ∧
      splitFrom (name ++ '-' :: version) ((name ++ '-' :: version).length - 1) = (name, version)) ∨
    ((∃ j, CutAt version j) ∧ name.length <
      (splitFrom (name ++ '-' :: version) ((name ++ '-' :: version).length - 1)).1.length) := by
  have joined := cut_joined name version starts
  by_cases plain : ∀ j, ¬ CutAt version j
  · refine Or.inl ⟨plain, ?_⟩
    have room := cut_length joined
    rw [split_last joined (by omega), List.take_left, drop_joined]
    intro j after _ cut
    obtain ⟨k, rfl⟩ : ∃ k, j = name.length + 1 + k := ⟨j - (name.length + 1), by omega⟩
    exact plain k ((cut_label name version k).mp cut)
  · push Not at plain
    obtain ⟨j, cut⟩ := plain
    have later := (cut_label name version j).mpr cut
    have room := cut_length later
    obtain ⟨k, cut', after, before, same⟩ := split_exists later
      (n := (name ++ '-' :: version).length - 1) (by omega)
    refine Or.inr ⟨⟨j, cut⟩, ?_⟩
    rw [same, List.length_take]
    have inside := cut_length cut'
    omega

end Label

end Chart
