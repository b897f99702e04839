import Radar.Base.Binary64

/- The quantities of the Kubernetes API: a decimal number with a suffix, and its value. -/
namespace Quantities
open Binary64

structure Digits where
  chars : List Char
  digits : ∀ c ∈ chars, c.isDigit = true

/-- The number decimal digits write. -/
def decimal (digits : List Char) : Nat := digits.foldl (fun n c => 10 * n + (c.toNat - 48)) 0

inductive Sign where
  | none
  | plus
  | minus
  deriving DecidableEq

def Sign.text : Sign → List Char
  | none => []
  | plus => ['+']
  | minus => ['-']

def Sign.unit : Sign → Int
  | minus => -1
  | _ => 1

inductive DecimalSI where
  | nano | micro | milli | one | kilo | mega | giga | tera | peta | exa

def DecimalSI.text : DecimalSI → List Char
  | nano => ['n']
  | micro => ['u']
  | milli => ['m']
  | one => []
  | kilo => ['k']
  | mega => ['M']
  | giga => ['G']
  | tera => ['T']
  | peta => ['P']
  | exa => ['E']

def DecimalSI.scale : DecimalSI → ℚ
  | nano => 1 / 10 ^ 9
  | micro => 1 / 10 ^ 6
  | milli => 1 / 10 ^ 3
  | one => 1
  | kilo => 10 ^ 3
  | mega => 10 ^ 6
  | giga => 10 ^ 9
  | tera => 10 ^ 12
  | peta => 10 ^ 15
  | exa => 10 ^ 18

inductive BinarySI where
  | kibi | mebi | gibi | tebi | pebi | exbi

def BinarySI.text : BinarySI → List Char
  | kibi => ['K', 'i']
  | mebi => ['M', 'i']
  | gibi => ['G', 'i']
  | tebi => ['T', 'i']
  | pebi => ['P', 'i']
  | exbi => ['E', 'i']

def BinarySI.scale : BinarySI → ℚ
  | kibi => 2 ^ 10
  | mebi => 2 ^ 20
  | gibi => 2 ^ 30
  | tebi => 2 ^ 40
  | pebi => 2 ^ 50
  | exbi => 2 ^ 60

/-- The exponents ParseQuantity keeps have 32 bits. -/
structure Exponent where
  upper : Bool
  sign : Sign
  digits : Digits
  some_ : digits.chars ≠ []
  small : decimal digits.chars < 0x80000000

def Exponent.text (e : Exponent) : List Char :=
  (if e.upper then 'E' else 'e') :: (e.sign.text ++ e.digits.chars)

def Exponent.power (e : Exponent) : Int := e.sign.unit * decimal e.digits.chars

inductive Suffix where
  | decimalSI (s : DecimalSI)
  | binarySI (s : BinarySI)
  | exponent (e : Exponent)

def Suffix.text : Suffix → List Char
  | decimalSI s => s.text
  | binarySI s => s.text
  | exponent e => e.text

def Suffix.scale : Suffix → ℚ
  | decimalSI s => s.scale
  | binarySI s => s.scale
  | exponent e => 10 ^ e.power

/-- A signed number with a digit before or after its point, and a suffix. -/
structure Quantity where
  sign : Sign
  whole : Digits
  point : Bool
  frac : Digits
  suffix : Suffix
  pointed : point = false → frac.chars = []
  some_ : whole.chars ≠ [] ∨ frac.chars ≠ []

namespace Quantity
variable (q : Quantity)

def tail : List Char := if q.point then '.' :: q.frac.chars else []

/-- What stands before the suffix. -/
def numeral : List Char := q.sign.text ++ (q.whole.chars ++ q.tail)

def text : List Char := q.numeral ++ q.suffix.text

def wholePart : Nat := decimal q.whole.chars

def fraction : ℚ := decimal q.frac.chars / 10 ^ q.frac.chars.length

def mantissa : ℚ := q.wholePart + q.fraction

/-- The value without its sign. -/
def magnitude : ℚ := q.mantissa * q.suffix.scale

def value : ℚ := q.sign.unit * q.magnitude

def nanocores : ℚ := q.value * 10 ^ 9

end Quantity

/-- What fits is an int64 after rounding. -/
def Fits (v : ℚ) : Prop := -0x8000000000000000 ≤ roundAway v ∧ roundAway v < 0x8000000000000000

section Values

theorem decimal_append (digits : List Char) (c : Char) :
    decimal (digits ++ [c]) = 10 * decimal digits + (c.toNat - 48) := by
  simp [decimal, List.foldl_append]

theorem digit_value {c : Char} (digit : c.isDigit = true) : c.toNat - 48 < 10 := by
  simp only [Char.isDigit, Bool.and_eq_true, decide_eq_true_eq] at digit
  have upper : c.val.toNat ≤ 57 := by
    have bound := UInt32.le_iff_toNat_le.mp digit.2
    simpa using bound
  have same : c.toNat = c.val.toNat := rfl
  omega

theorem decimal_lt {digits : List Char} (all : ∀ c ∈ digits, c.isDigit = true) :
    decimal digits < 10 ^ digits.length := by
  induction digits using List.reverseRecOn with
  | nil => decide
  | append_singleton digits c ih =>
    have rest := ih fun d member => all d (List.mem_append_left _ member)
    have last := digit_value (all c (by simp))
    rw [decimal_append, List.length_append, List.length_singleton, Nat.pow_succ]
    omega

theorem sign_isSign (s : Sign) : IsSign s.unit := by
  constructor
  cases s <;> decide

variable (q : Quantity)

theorem fraction_nonneg : 0 ≤ q.fraction := by
  unfold Quantity.fraction
  positivity

theorem fraction_lt : q.fraction < 1 := by
  have below : (decimal q.frac.chars : ℚ) < 10 ^ q.frac.chars.length := by
    exact_mod_cast decimal_lt q.frac.digits
  rw [Quantity.fraction, div_lt_one (by positivity)]
  exact below

theorem mantissa_nonneg : 0 ≤ q.mantissa := by
  have frac := fraction_nonneg q
  unfold Quantity.mantissa
  positivity

theorem scale_pos (s : Suffix) : 0 < s.scale := by
  cases s with
  | decimalSI s => cases s <;> norm_num [Suffix.scale, DecimalSI.scale]
  | binarySI s => cases s <;> norm_num [Suffix.scale, BinarySI.scale]
  | exponent e => exact zpow_pos (by norm_num) _

theorem magnitude_nonneg : 0 ≤ q.magnitude := mul_nonneg (mantissa_nonneg q) (scale_pos q.suffix).le

theorem roundAway_value : roundAway q.value = q.sign.unit * ⌈q.magnitude⌉ :=
  roundAway_signed (sign_isSign q.sign) (magnitude_nonneg q)

theorem roundAway_nanocores : roundAway q.nanocores = q.sign.unit * ⌈q.magnitude * 10 ^ 9⌉ := by
  have grouped : q.nanocores = q.sign.unit * (q.magnitude * 10 ^ 9) := by
    rw [Quantity.nanocores, Quantity.value]
    ring
  rw [grouped]
  exact roundAway_signed (sign_isSign q.sign) (mul_nonneg (magnitude_nonneg q) (by norm_num))

end Values

end Quantities
