import Mathlib.Data.List.TakeDrop
import Mathlib.Data.List.TakeWhile

/- How a program tells the options among its arguments from the operands: the guidelines of POSIX with long
   options, the letters of a first argument without a dash, and the starting points of a search. -/
namespace Operands

inductive Arg (α : Type) where
  | option (letter : α) (value : Option (List α))
  | long (word : List α)
  | operand (word : List α)
  deriving DecidableEq

section Words
variable {α : Type} (takes : α → Bool)

/-- The options of one word, and the last of them where its value is still to come. -/
def cluster : List α → List (Arg α) × Option α
  | [] => ([], none)
  | letter :: more =>
    if takes letter then
      if more = [] then ([], some letter) else ([.option letter (some more)], none)
    else
      let (args, pending) := cluster more
      (.option letter none :: args, pending)

def operands (args : List (Arg α)) : List (List α) := args.filterMap fun arg => match arg with
    | .operand word => some word
    | _ => none

theorem operands_append (a b : List (Arg α)) : operands (a ++ b) = operands a ++ operands b := List.filterMap_append

theorem cluster_operands (letters : List α) : operands (cluster takes letters).1 = [] := by
  induction letters with
  | nil => rfl
  | cons letter more ih =>
    rw [cluster]
    by_cases value : takes letter = true
    · rw [if_pos value]
      by_cases last : more = []
      · rw [if_pos last]
        rfl
      · rw [if_neg last]
        rfl
    · rw [if_neg value]
      exact ih

end Words

section Arguments
variable {α : Type} [DecidableEq α] (dash : α) (takes : α → Bool) (permute : Bool)

/-- A word with the dash in front is no operand, but for the dash alone. -/
def optional (word : List α) : Bool := word.head? = some dash ∧ word ≠ [dash]

/-- Nothing where the value of an option is missing. Operands end the options unless they are permuted. -/
def arguments : Option α → List (List α) → Option (List (Arg α))
  | none, [] => some []
  | some _, [] => none
  | some letter, word :: rest => (arguments none rest).map (.option letter (some word) :: ·)
  | none, word :: rest =>
    if word = [dash, dash] then some (rest.map .operand)
    else if optional dash word then
      if word.take 2 = [dash, dash] then (arguments none rest).map (.long word :: ·)
      else
        let (args, pending) := cluster takes word.tail
        (arguments pending rest).map (args ++ ·)
    else if permute then (arguments none rest).map (.operand word :: ·)
    else some ((word :: rest).map .operand)

/-- The letters of a first word without a dash, whose values follow in their order. -/
def bundled : List α → List (List α) → Option (List (Arg α))
  | [], rest => arguments dash takes permute none rest
  | letter :: more, rest =>
    if takes letter then
      match rest with
      | [] => none
      | value :: rest => (bundled more rest).map (.option letter (some value) :: ·)
    else (bundled more rest).map (.option letter none :: ·)

end Arguments

section Last
variable {α : Type} [DecidableEq α] {dash : α} {takes : α → Bool} {permute : Bool}

/-- A word of short options adds no operand. -/
theorem after_options {word : List α} (option : optional dash word = true) (short : word.take 2 ≠ [dash, dash])
    (rest : List (List α)) :
    (arguments dash takes permute none (word :: rest)).map operands =
      (arguments dash takes permute (cluster takes word.tail).2 rest).map operands := by
  have ends : word ≠ [dash, dash] := by
    rintro rfl
    exact short rfl
  rw [arguments, if_neg ends, if_pos option, if_neg short]
  simp only [Option.map_map]
  congr 1
  funext args
  rw [Function.comp_apply, operands_append, cluster_operands, List.nil_append]

theorem after_value (letter : α) (value : List α) (rest : List (List α)) :
    (arguments dash takes permute (some letter) (value :: rest)).map operands =
      (arguments dash takes permute none rest).map operands := by
  rw [arguments, Option.map_map]
  rfl

/-- An only argument is an operand unless it is an option. -/
theorem last_operand (word : List α) :
    (arguments dash takes permute none [word]).map operands = some [word] ↔ optional dash word = false := by
  rw [arguments]
  by_cases ends : word = [dash, dash]
  · subst ends
    rw [if_pos rfl]
    simp [optional, operands]
  · rw [if_neg ends]
    by_cases option : optional dash word = true
    · rw [if_pos option, option]
      refine iff_of_false ?_ Bool.true_eq_false.mp
      by_cases long : word.take 2 = [dash, dash]
      · rw [if_pos long]
        simp [arguments, operands]
      · rw [if_neg long]
        have none_ := cluster_operands takes word.tail
        cases pending : (cluster takes word.tail).2 with
        | some letter => simp [arguments, pending]
        | none => simp [arguments, pending, none_]
    · rw [if_neg option]
      refine iff_of_true ?_ (eq_false_of_ne_true option)
      cases permute <;> rfl

end Last

section Search
variable {α : Type} [DecidableEq α]

/-- How a search reads its arguments: options, then starting points, then an expression. -/
structure Searching (α : Type) where
  dash : α
  /-- Options that may stand in front of the starting points, and those that take the next word with them. -/
  flag : List α → Bool
  pair : List α → Bool
  /-- Words that begin an expression besides those with the dash in front. -/
  operator : List α → Bool
  flag_dash : ∀ word, flag word = true → word.head? = some dash
  pair_dash : ∀ word, pair word = true → word.head? = some dash

variable (s : Searching α)

def Searching.begins (word : List α) : Bool := word.head? = some s.dash ∨ s.operator word

def Searching.leading : List (List α) → List (List α)
  | [] => []
  | word :: rest =>
    if word = [s.dash, s.dash] then rest
    else if s.flag word then leading rest
    else if s.pair word then
      match rest with
      | [] => []
      | _ :: rest => leading rest
    else word :: rest

/-- The starting points and the expression. -/
def Searching.divide (args : List (List α)) : List (List α) × List (List α) :=
  (s.leading args).span fun word => ! s.begins word

variable {s}

theorem leading_plain {word : List α} (plain : s.begins word = false) (rest : List (List α)) :
    s.leading (word :: rest) = word :: rest := by
  obtain ⟨dashed, _⟩ := not_or.mp (of_decide_eq_false plain)
  have ends : word ≠ [s.dash, s.dash] := by
    rintro rfl
    exact dashed rfl
  rw [Searching.leading.eq_def]
  simp only
  rw [if_neg ends, if_neg fun flag => dashed (s.flag_dash word flag),
    if_neg fun pair => dashed (s.pair_dash word pair)]

/-- The first argument is the only starting point before an expression unless it begins one or is an option. -/
theorem divide_first (word : List α) {first : List α} (expression : s.begins first = true) (rest : List (List α)) :
    s.divide (word :: first :: rest) = ([word], first :: rest) ↔ s.begins word = false := by
  constructor
  · intro divided
    have points : (s.leading (word :: first :: rest)).takeWhile (fun word => ! s.begins word) = [word] := by
      rw [Searching.divide, List.span_eq_takeWhile_dropWhile] at divided
      exact congrArg Prod.fst divided
    have member := List.mem_takeWhile_imp (points ▸ List.mem_singleton_self word)
    simpa using member
  · intro plain
    rw [Searching.divide, leading_plain plain, List.span_eq_takeWhile_dropWhile,
      List.takeWhile_cons_of_pos (by simp [plain]), List.takeWhile_cons_of_neg (by simp [expression]),
      List.dropWhile_cons_of_pos (by simp [plain]), List.dropWhile_cons_of_neg (by simp [expression])]

end Search
end Operands
