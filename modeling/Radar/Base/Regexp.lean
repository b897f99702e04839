import Mathlib.Data.List.Basic

/- Regular expressions as RE2 reads them, as far as literals, escapes, the dot (which matches every character), groups and the
   repetitions go; nothing for the rest of the syntax. A match is of the whole text. -/
namespace Regexp

inductive Regex where
  | one (allowed : Char → Bool)
  | empty
  | seq (first second : Regex)
  | many (r : Regex)
  | some_ (r : Regex)
  | maybe (r : Regex)

def Regex.Matches : Regex → List Char → Prop
  | .one allowed, t => ∃ c, allowed c = true ∧ t = [c]
  | .empty, t => t = []
  | .seq first second, t => ∃ u v, t = u ++ v ∧ first.Matches u ∧ second.Matches v
  | .many r, t => ∃ parts : List (List Char), t = parts.flatten ∧ ∀ u ∈ parts, r.Matches u
  | .some_ r, t => ∃ parts : List (List Char), parts ≠ [] ∧ t = parts.flatten ∧ ∀ u ∈ parts, r.Matches u
  | .maybe r, t => t = [] ∨ r.Matches t

def literal (c : Char) : Regex := .one fun d => d == c

def sequence : List Regex → Regex
  | [] => .empty
  | r :: rest => .seq r (sequence rest)

/-- What is read of a pattern: the items of the open group, the last one in front, those of the groups around it, whether a
    backslash was read last, and whether the last item may be repeated. -/
structure Reading where
  items : List Regex
  outer : List (List Regex)
  escaped : Bool
  fresh : Bool

def Reading.push (s : Reading) (r : Regex) : Reading := { s with items := r :: s.items, escaped := false, fresh := true }

def Reading.repeat_ (s : Reading) (op : Regex → Regex) : Option Reading := match s.items with
  | r :: rest => if s.fresh then some { s with items := op r :: rest, fresh := false } else none
  | [] => none

def special (c : Char) : Bool := ['.', '+', '*', '?', '^', '$', '{', '}', '(', ')', '|', '[', ']', '\\'].contains c

/-- An escaped character that stands for itself. -/
def punctuation (c : Char) : Bool := c.toNat < 128 && !c.isAlphanum

def Reading.step (s : Reading) (c : Char) : Option Reading := if s.escaped then
    if c = 'd' then some (s.push (.one Char.isDigit))
    else if punctuation c then some (s.push (literal c))
    else none
  else if c = '\\' then some { s with escaped := true }
  else if c = '.' then some (s.push (.one fun _ => true))
  else if c = '*' then s.repeat_ .many
  else if c = '+' then s.repeat_ .some_
  else if c = '?' then s.repeat_ .maybe
  else if c = '(' then some { s with items := [], outer := s.items :: s.outer, fresh := false }
  else if c = ')' then
    match s.outer with
    | around :: rest => some { s with items := sequence s.items.reverse :: around, outer := rest, fresh := true }
    | [] => none
  else if special c then none
  else some (s.push (literal c))

def Reading.run (s : Reading) : List Char → Option Reading
  | [] => some s
  | c :: rest => (s.step c).bind fun t => t.run rest

def parse (pattern : List Char) : Option Regex := (Reading.run ⟨[], [], false, false⟩ pattern).bind fun s =>
    if s.escaped ∨ s.outer ≠ [] then none else some (sequence s.items.reverse)

theorem read_append (s : Reading) (first second : List Char) :
    s.run (first ++ second) = (s.run first).bind fun t => t.run second := by
  induction first generalizing s with
  | nil => rfl
  | cons c rest ih =>
    rw [List.cons_append, Reading.run, Reading.run, Option.bind_assoc]
    exact congrArg _ (funext ih)

theorem step_plain {s : Reading} (ready : s.escaped = false) {c : Char} (plain : special c = false) :
    s.step c = some (s.push (literal c)) := by
  have other : ∀ d, special d = true → c ≠ d := by
    rintro d meta_ rfl
    rw [plain] at meta_
    cases meta_
  rw [Reading.step, if_neg (by simp [ready]), if_neg (other _ rfl), if_neg (other _ rfl), if_neg (other _ rfl), if_neg (other _ rfl),
    if_neg (other _ rfl), if_neg (other _ rfl), if_neg (other _ rfl), if_neg (by simp [plain])]

theorem step_escape {s : Reading} (ready : s.escaped = false) : s.step '\\' = some { s with escaped := true } := by
  rw [Reading.step, if_neg (by simp [ready]), if_pos rfl]

theorem step_escaped {s : Reading} (escaped : s.escaped = true) {c : Char} (stands : punctuation c = true) :
    s.step c = some (s.push (literal c)) := by
  have other : c ≠ 'd' := by
    rintro rfl
    revert stands
    decide
  rw [Reading.step, if_pos escaped, if_neg other, if_pos stands]

theorem matches_literals (text : List Char) (rest : List Regex) (t : List Char) :
    (sequence (text.map literal ++ rest)).Matches t ↔ ∃ u, t = text ++ u ∧ (sequence rest).Matches u := by
  induction text generalizing t with
  | nil => simp
  | cons c text ih =>
    rw [List.map_cons, List.cons_append, sequence, Regex.Matches]
    constructor
    · rintro ⟨u, v, rfl, ⟨d, same, rfl⟩, later⟩
      obtain ⟨w, rfl, held⟩ := (ih v).mp later
      have equal : d = c := by simpa using same
      exact ⟨w, by rw [equal]; rfl, held⟩
    · rintro ⟨u, rfl, held⟩
      exact ⟨[c], text ++ u, rfl, ⟨c, by simp, rfl⟩, (ih _).mpr ⟨u, rfl, held⟩⟩

theorem matches_single (r : Regex) (t : List Char) : (sequence [r]).Matches t ↔ r.Matches t := by
  constructor
  · rintro ⟨u, v, rfl, held, rfl⟩
    rwa [List.append_nil]
  · exact fun held => ⟨t, [], (List.append_nil t).symm, held, rfl⟩

/-- Characters one by one. -/
theorem singles_iff (allowed : Char → Bool) (t : List Char) :
    (∃ parts : List (List Char), t = parts.flatten ∧ ∀ u ∈ parts, (Regex.one allowed).Matches u) ↔ ∀ c ∈ t, allowed c = true := by
  constructor
  · rintro ⟨parts, rfl, each⟩ c member
    obtain ⟨u, listed, inside⟩ := List.mem_flatten.mp member
    obtain ⟨d, holds, rfl⟩ := each u listed
    rwa [List.mem_singleton.mp inside]
  · intro each
    refine ⟨t.map fun c => [c], ?_, ?_⟩
    · induction t with
      | nil => rfl
      | cons c rest ih => simpa using ih fun d later => each d (List.mem_cons_of_mem c later)
    · intro u listed
      obtain ⟨c, member, rfl⟩ := List.mem_map.mp listed
      exact ⟨c, each c member, rfl⟩

theorem matches_any (t : List Char) : (Regex.many (.one fun _ => true)).Matches t :=
  (singles_iff _ t).mpr fun _ _ => rfl

theorem matches_some {allowed : Char → Bool} {t : List Char} :
    (Regex.some_ (.one allowed)).Matches t ↔ t ≠ [] ∧ ∀ c ∈ t, allowed c = true := by
  rw [← singles_iff]
  constructor
  · rintro ⟨parts, some, rfl, each⟩
    refine ⟨?_, parts, rfl, each⟩
    obtain ⟨u, member⟩ := List.exists_mem_of_ne_nil parts some
    obtain ⟨c, -, rfl⟩ := each u member
    exact List.ne_nil_of_mem (List.mem_flatten.mpr ⟨[c], member, List.mem_singleton_self c⟩)
  · rintro ⟨some, parts, rfl, each⟩
    exact ⟨parts, fun none => some (by rw [none]; rfl), rfl, each⟩

end Regexp
