import Mathlib.Data.Nat.Log
import Mathlib.Data.String.Basic

/- Lexicographic comparison of texts, and decimal numbers of a fixed width, whose texts compare as
   the numbers do. -/
namespace TextOrder

/-- A number in two parts is compared by its high part, then by its low one. -/
theorem cmp_then {α β γ : Type} [LinearOrder α] [LinearOrder β] [LinearOrder γ] {a a' : α}
    {b b' : β} {c c' : γ} (less : a < a' → c < c') (more : a' < a → c' < c)
    (same : a = a' → cmp b b' = cmp c c') : (cmp a a').then (cmp b b') = cmp c c' := by
  rcases lt_trichotomy a a' with below | equal | above
  · rw [(cmp_eq_lt_iff a a').mpr below, Ordering.lt_then, (cmp_eq_lt_iff c c').mpr (less below)]
  · rw [(cmp_eq_eq_iff a a').mpr equal, Ordering.eq_then, same equal]
  · rw [(cmp_eq_gt_iff a a').mpr above, Ordering.gt_then, (cmp_eq_gt_iff c c').mpr (more above)]

/-- Comparisons that agree on less and on more are the same. -/
theorem cmp_congr {α β : Type} [LinearOrder α] [LinearOrder β] {a a' : α} {b b' : β}
    (less : a < a' ↔ b < b') (more : a' < a ↔ b' < b) : cmp a a' = cmp b b' := by
  rcases lt_trichotomy a a' with below | equal | above
  · rw [(cmp_eq_lt_iff a a').mpr below, (cmp_eq_lt_iff b b').mpr (less.mp below)]
  · have level : b = b' := by
      apply le_antisymm
      · exact not_lt.mp fun above => (more.mpr above).ne equal.symm
      · exact not_lt.mp fun below => (less.mpr below).ne equal
    rw [(cmp_eq_eq_iff a a').mpr equal, (cmp_eq_eq_iff b b').mpr level]
  · rw [(cmp_eq_gt_iff a a').mpr above, (cmp_eq_gt_iff b b').mpr (more.mp above)]

section Lex
variable {α : Type} [LinearOrder α] {a b : List α}

def lexCompare : List α → List α → Ordering
  | [], [] => .eq
  | [], _ :: _ => .lt
  | _ :: _, [] => .gt
  | a :: x, b :: y => (cmp a b).then (lexCompare x y)

@[simp] theorem lex_nil_cons (b : α) (y : List α) : lexCompare [] (b :: y) = .lt := rfl

@[simp] theorem lex_cons_nil (a : α) (x : List α) : lexCompare (a :: x) [] = .gt := rfl

theorem lex_cons (a b : α) (x y : List α) :
    lexCompare (a :: x) (b :: y) = (cmp a b).then (lexCompare x y) := rfl

@[simp] theorem lex_self (a : List α) : lexCompare a a = .eq := by
  induction a with
  | nil => rfl
  | cons c a ih => rw [lex_cons, cmp_self_eq_eq, Ordering.eq_then, ih]

theorem lex_eq_iff : lexCompare a b = .eq ↔ a = b := by
  constructor
  · intro same
    induction a generalizing b with
    | nil =>
      cases b with
      | nil => rfl
      | cons d b => simp at same
    | cons c a ih =>
      cases b with
      | nil => simp at same
      | cons d b =>
        rw [lex_cons, Ordering.then_eq_eq, cmp_eq_eq_iff] at same
        rw [same.1, ih same.2]
  · intro same
    rw [same, lex_self]

theorem lex_swap (a b : List α) : (lexCompare a b).swap = lexCompare b a := by
  induction a generalizing b with
  | nil => cases b <;> rfl
  | cons c a ih =>
    cases b with
    | nil => rfl
    | cons d b => rw [lex_cons, lex_cons, Ordering.swap_then, cmp_swap, ih]

theorem lex_le_trans {a b c : List α} (first : lexCompare a b ≠ .gt)
    (second : lexCompare b c ≠ .gt) : lexCompare a c ≠ .gt := by
  induction a generalizing b c with
  | nil => cases c <;> simp
  | cons x a ih =>
    cases b with
    | nil => exact absurd rfl first
    | cons y b =>
      cases c with
      | nil => exact absurd rfl second
      | cons z c =>
        rw [lex_cons, ne_eq, Ordering.then_eq_gt, cmp_eq_gt_iff, cmp_eq_eq_iff, not_or, not_and,
          not_lt] at first second ⊢
        refine ⟨first.1.trans second.1, ?_⟩
        intro same
        have level : x = y := le_antisymm first.1 (same ▸ second.1)
        exact ih (first.2 level) (second.2 (level ▸ same))

theorem lex_le_antisymm (first : lexCompare a b ≠ .gt) (second : lexCompare b a ≠ .gt) : a = b := by
  rw [← lex_swap] at second
  cases order : lexCompare a b with
  | lt => exact absurd (by rw [order]; rfl) second
  | eq => exact lex_eq_iff.mp order
  | gt => exact absurd order first

/-- Fields of one width are compared one after the other. -/
theorem lex_append {a b x y : List α} (width : a.length = b.length) :
    lexCompare (a ++ x) (b ++ y) = (lexCompare a b).then (lexCompare x y) := by
  induction a generalizing b with
  | nil =>
    have empty : b = [] := List.length_eq_zero_iff.mp width.symm
    rw [empty]
    rfl
  | cons c a ih =>
    cases b with
    | nil => simp at width
    | cons d b =>
      rw [List.cons_append, List.cons_append, lex_cons, lex_cons, Ordering.then_assoc,
        ih (by simpa using width)]

theorem lex_append_same (a x y : List α) : lexCompare (a ++ x) (a ++ y) = lexCompare x y := by
  rw [lex_append rfl, lex_self, Ordering.eq_then]

/-- Where neither text is a prefix of the other, what follows them does not matter. -/
theorem lex_append_apart (x y : List α) (first : ¬ a <+: b) (second : ¬ b <+: a) :
    lexCompare (a ++ x) (b ++ y) = lexCompare a b := by
  induction a generalizing b with
  | nil => exact absurd (List.nil_prefix) first
  | cons c a ih =>
    cases b with
    | nil => exact absurd (List.nil_prefix) second
    | cons d b =>
      rw [List.cons_append, List.cons_append, lex_cons, lex_cons]
      by_cases same : c = d
      · subst same
        rw [ih (fun short => first ((List.prefix_cons_inj c).mpr short))
          (fun short => second ((List.prefix_cons_inj c).mpr short))]
      · cases order : cmp c d with
        | lt => rfl
        | gt => rfl
        | eq => exact absurd ((cmp_eq_eq_iff c d).mp order) same

end Lex

def digit (d : Nat) : Char := Char.ofNat (48 + d)

theorem cmp_digit {a b : Nat} (first : a < 10) (second : b < 10) : cmp (digit a) (digit b) = cmp a b := by
  have all : ∀ a b : Fin 10, cmp (digit a) (digit b) = cmp a.val b.val := by decide
  exact all ⟨a, first⟩ ⟨b, second⟩

/-- The last w decimal digits of a number, the highest first. -/
def decimal : Nat → Nat → List Char
  | 0, _ => []
  | w + 1, n => digit (n / 10 ^ w) :: decimal w (n % 10 ^ w)

@[simp] theorem decimal_length (w n : Nat) : (decimal w n).length = w := by
  induction w generalizing n with
  | zero => rfl
  | succ w ih => rw [decimal, List.length_cons, ih]

theorem digit_bound {w n : Nat} (bound : n < 10 ^ (w + 1)) : n / 10 ^ w < 10 := by
  rw [pow_succ] at bound
  exact Nat.div_lt_of_lt_mul bound

theorem decimal_digits {w n : Nat} (bound : n < 10 ^ w) : ∀ c ∈ decimal w n, ∃ d, d < 10 ∧ c = digit d := by
  induction w generalizing n with
  | zero =>
    intro c member
    simp [decimal] at member
  | succ w ih =>
    intro c member
    rw [decimal] at member
    rcases List.mem_cons.mp member with first | later
    · exact ⟨_, digit_bound bound, first⟩
    · exact ih (Nat.mod_lt n (Nat.pow_pos (by decide))) c later

theorem cmp_div_mod (a b k : Nat) (positive : 0 < k) :
    cmp a b = (cmp (a / k) (b / k)).then (cmp (a % k) (b % k)) := by
  have whole := Nat.div_add_mod a k
  have whole' := Nat.div_add_mod b k
  have small := Nat.mod_lt a positive
  have small' := Nat.mod_lt b positive
  symm
  apply cmp_then
  · intro less
    have step := Nat.mul_le_mul_left k (Nat.succ_le_of_lt less)
    rw [Nat.mul_succ] at step
    omega
  · intro more
    have step := Nat.mul_le_mul_left k (Nat.succ_le_of_lt more)
    rw [Nat.mul_succ] at step
    omega
  · intro same
    rw [same] at whole
    apply cmp_congr
    · omega
    · omega

/-- Numbers of one width compare as their texts. -/
theorem cmp_decimal {w a b : Nat} (first : a < 10 ^ w) (second : b < 10 ^ w) :
    lexCompare (decimal w a) (decimal w b) = cmp a b := by
  induction w generalizing a b with
  | zero =>
    have none : a = b := by
      simp only [pow_zero] at first second
      omega
    rw [none, lex_self, cmp_self_eq_eq]
  | succ w ih =>
    have positive : 0 < 10 ^ w := Nat.pow_pos (by decide)
    rw [decimal, decimal, lex_cons, cmp_digit (digit_bound first) (digit_bound second),
      ih (Nat.mod_lt a positive) (Nat.mod_lt b positive), ← cmp_div_mod a b _ positive]

/-- The leading digits of a longer number are those of the number without its last digits. -/
theorem decimal_split {w d n : Nat} (bound : n < 10 ^ (w + d)) :
    decimal (w + d) n = decimal w (n / 10 ^ d) ++ decimal d (n % 10 ^ d) := by
  induction w generalizing n with
  | zero =>
    rw [Nat.zero_add] at bound ⊢
    rw [decimal, List.nil_append, Nat.mod_eq_of_lt bound]
  | succ w ih =>
    have head : n / 10 ^ d / 10 ^ w = n / 10 ^ (w + d) := by
      rw [Nat.div_div_eq_div_mul, pow_add, Nat.mul_comm]
    have middle : n % 10 ^ (w + d) / 10 ^ d = n / 10 ^ d % 10 ^ w := by
      rw [pow_add, Nat.mul_comm, Nat.mod_mul_right_div_self]
    have low : n % 10 ^ (w + d) % 10 ^ d = n % 10 ^ d :=
      Nat.mod_mod_of_dvd n (Nat.pow_dvd_pow 10 (Nat.le_add_left d w))
    rw [Nat.succ_add, decimal, decimal, ih (Nat.mod_lt n (Nat.pow_pos (by decide))), head, middle,
      low, List.cons_append]

section Numbers
variable {separator : Ordering}

def digitCount (n : Nat) : Nat := Nat.log 10 n + 1

theorem digit_count_le {n w : Nat} (wide : 0 < w) (bound : n < 10 ^ w) : digitCount n ≤ w := by
  have count := Nat.log_lt_of_lt_pow' (by omega) bound
  unfold digitCount
  omega

/-- The places a number takes that is padded with zeros to a width. -/
def places (w n : Nat) : Nat := max w (digitCount n)

theorem places_bound (w n : Nat) : n < 10 ^ places w n := by
  have own : n < 10 ^ digitCount n := Nat.lt_pow_succ_log_self (by decide) n
  exact own.trans_le (Nat.pow_le_pow_right (by decide) (Nat.le_max_right w (digitCount n)))

theorem places_small {w n : Nat} (wide : 0 < w) (bound : n < 10 ^ w) : places w n = w :=
  Nat.max_eq_left (digit_count_le wide bound)

def number (w n : Nat) : List Char := decimal (places w n) n

/-- How padded numbers compare that a separator follows: a number with fewer places is compared with
   as many leading digits of the other one, and where these agree its separator decides. -/
def numberOrder (separator : Ordering) (w a b : Nat) : Ordering := if places w a = places w b then cmp a b
  else if places w a < places w b then
    (cmp a (b / 10 ^ (places w b - places w a))).then separator
  else (cmp (a / 10 ^ (places w a - places w b)) b).then separator.swap

theorem number_order_swap (separator : Ordering) (w a b : Nat) :
    (numberOrder separator w a b).swap = numberOrder separator w b a := by
  unfold numberOrder
  rcases lt_trichotomy (places w a) (places w b) with fewer | same | more
  · rw [if_neg fewer.ne, if_pos fewer, if_neg fewer.ne', if_neg fewer.asymm, Ordering.swap_then, cmp_swap]
  · rw [if_pos same, if_pos same.symm, cmp_swap]
  · rw [if_neg more.ne', if_neg more.asymm, if_neg more.ne, if_pos more, Ordering.swap_then,
      cmp_swap, Ordering.swap_swap]

theorem number_order_eq_iff (strict : separator ≠ .eq) (w a b : Nat) :
    numberOrder separator w a b = .eq ↔ a = b := by
  unfold numberOrder
  by_cases same : places w a = places w b
  · rw [if_pos same, cmp_eq_eq_iff]
  · have differ : a ≠ b := fun equal => same (by rw [equal])
    have strict' : separator.swap ≠ .eq := by
      cases separator <;> simp_all
    rw [if_neg same]
    by_cases fewer : places w a < places w b
    · rw [if_pos fewer, Ordering.then_eq_eq]
      exact iff_of_false (fun both => strict both.2) differ
    · rw [if_neg fewer, Ordering.then_eq_eq]
      exact iff_of_false (fun both => strict' both.2) differ

/-- The digits of a number against the separator after a shorter one. -/
theorem lex_short {w d a b : Nat} {mark : Char}
    (against : ∀ d < 10, cmp mark (digit d) = separator) (strict : separator ≠ .eq)
    (longer : 0 < d) (first : a < 10 ^ w) (second : b < 10 ^ (w + d)) (x y : List Char) :
    lexCompare (decimal w a ++ mark :: x) (decimal (w + d) b ++ y) =
      (cmp a (b / 10 ^ d)).then separator := by
  obtain ⟨k, rfl⟩ : ∃ k, d = k + 1 := ⟨d - 1, by omega⟩
  have high : b / 10 ^ (k + 1) < 10 ^ w := by
    rw [pow_add, Nat.mul_comm] at second
    exact Nat.div_lt_of_lt_mul second
  have low : b % 10 ^ (k + 1) < 10 ^ (k + 1) := Nat.mod_lt b (Nat.pow_pos (by decide))
  rw [decimal_split second, List.append_assoc, lex_append (by simp), cmp_decimal first high,
    decimal, List.cons_append, lex_cons, against _ (digit_bound low)]
  cases separator with
  | eq => exact absurd rfl strict
  | lt => rfl
  | gt => rfl

/-- Padded numbers before one and the same separator. -/
theorem lex_number {mark : Char}
    (against : ∀ d < 10, cmp mark (digit d) = separator) (strict : separator ≠ .eq) (w a b : Nat)
    (x y : List Char) : lexCompare (number w a ++ mark :: x) (number w b ++ mark :: y) =
      (numberOrder separator w a b).then (lexCompare x y) := by
  have fewer : ∀ {a b : Nat}, places w a < places w b → ∀ x y : List Char,
      lexCompare (number w a ++ mark :: x) (number w b ++ mark :: y) = numberOrder separator w a b := by
    intro a b less x y
    have total : places w b = places w a + (places w b - places w a) := by omega
    have second := places_bound w b
    have longer : decimal (places w b) b = decimal (places w a + (places w b - places w a)) b := by
      rw [← total]
    rw [numberOrder, if_neg less.ne, if_pos less, number, number, longer]
    rw [total] at second
    exact lex_short against strict (by omega) (places_bound w a) second x _
  rcases lt_trichotomy (places w a) (places w b) with less | same | more
  · have order := fewer less x y
    have differ : a ≠ b := fun equal => less.ne (by rw [equal])
    rw [order]
    cases compared : numberOrder separator w a b with
    | eq => exact absurd ((number_order_eq_iff strict w a b).mp compared) differ
    | lt => rfl
    | gt => rfl
  · have first := places_bound w a
    rw [same] at first
    rw [numberOrder, if_pos same, number, number, same, lex_append (by simp),
      cmp_decimal first (places_bound w b), lex_cons, cmp_self_eq_eq, Ordering.eq_then]
  · have order := fewer more y x
    have differ : a ≠ b := fun equal => more.ne (by rw [equal])
    rw [← lex_swap, order, number_order_swap]
    cases compared : numberOrder separator w a b with
    | eq => exact absurd ((number_order_eq_iff strict w a b).mp compared) differ
    | lt => rfl
    | gt => rfl

end Numbers

end TextOrder
