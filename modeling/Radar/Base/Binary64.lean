import Mathlib.Data.Int.Log
import Mathlib.Data.Rat.Floor
import Mathlib.Tactic.Positivity

/- Rational numbers rounded to whole ones and to doubles. A double is the rational it stands for, and
   its exponent has no upper end: what lies beyond the range is left to the user. -/
namespace Binary64

/-- Up in magnitude. -/
def roundAway (v : ℚ) : Int := if 0 ≤ v then ⌈v⌉ else -⌈-v⌉

/-- Down in magnitude. -/
def truncate (v : ℚ) : Int := if 0 ≤ v then ⌊v⌋ else -⌊-v⌋

def roundHalfEven (t : ℚ) : Int := if t - ⌊t⌋ < 1 / 2 then ⌊t⌋
  else if 1 / 2 < t - ⌊t⌋ then ⌊t⌋ + 1
  else if ⌊t⌋ % 2 = 0 then ⌊t⌋ else ⌊t⌋ + 1

/-- The unit in the last place of the 53 bits a number of this size has. -/
def ulp (y : ℚ) : ℚ := 2 ^ max (Int.log 2 y - 52) (-1074)

def nearestMagnitude (y : ℚ) : ℚ := roundHalfEven (y / ulp y) * ulp y

/-- The nearest double, a tie going to the even one. -/
def nearest (v : ℚ) : ℚ := if 0 ≤ v then nearestMagnitude v else -nearestMagnitude (-v)

theorem roundAway_lt (v : ℚ) : (roundAway v : ℚ) < v + 1 := by
  unfold roundAway
  split
  · exact Int.ceil_lt_add_one v
  · have below := Int.le_ceil (-v)
    push_cast
    linarith

section Sign

/-- A sign times a magnitude, the shape in which numbers are read. -/
structure IsSign (s : Int) : Prop where
  unit : s = 1 ∨ s = -1

variable {s : Int} {m : ℚ}

theorem signed_inj (sign : IsSign s) {a b : Int} : s * a = s * b ↔ a = b := by
  cases sign.unit with
  | inl plus => rw [plus, one_mul, one_mul]
  | inr minus =>
    rw [minus]
    omega

theorem roundAway_signed (sign : IsSign s) (nonneg : 0 ≤ m) : roundAway (s * m) = s * ⌈m⌉ := by
  cases sign.unit with
  | inl plus => simp [plus, roundAway, nonneg]
  | inr minus =>
    rw [minus, roundAway]
    split
    · rename_i low
      have zero : m = 0 := by
        push_cast at low
        linarith
      simp [zero]
    · simp

theorem truncate_signed (sign : IsSign s) (nonneg : 0 ≤ m) : truncate (s * m) = s * ⌊m⌋ := by
  cases sign.unit with
  | inl plus => simp [plus, truncate, nonneg]
  | inr minus =>
    rw [minus, truncate]
    split
    · rename_i low
      have zero : m = 0 := by
        push_cast at low
        linarith
      simp [zero]
    · simp

end Sign

section Ceiling
variable {w : Nat} {f c t : ℚ}

/-- A fraction is lost in a whole multiple only where there is none. -/
theorem ceil_part_iff (nonneg : 0 ≤ f) {F : Int} (pos : 0 < F) : ⌈(w + f) * F⌉ = w * F ↔ f = 0 := by
  have pos' : (0 : ℚ) < F := by exact_mod_cast pos
  constructor
  · intro same
    have upper := (Int.ceil_eq_iff.mp same).2
    push_cast at upper
    have none : f * F ≤ 0 := by linarith
    by_contra some_
    have more : 0 < f * F := mul_pos (lt_of_le_of_ne nonneg (Ne.symm some_)) pos'
    linarith
  · intro zero
    have whole : ((w : ℚ) + 0) * F = ((w * F : Int) : ℚ) := by
      push_cast
      ring
    rw [zero, whole, Int.ceil_intCast]

/-- A factor goes unnoticed in the rounding only up to one. -/
theorem ceil_factor_iff (nonneg : 0 ≤ t) (factor : 2 ≤ c) : ⌈c * t⌉ = ⌈t⌉ ↔ c * t ≤ 1 := by
  constructor
  · intro same
    by_contra more
    rw [not_le] at more
    have two : (1 : Int) < ⌈c * t⌉ := Int.lt_ceil.mpr (by exact_mod_cast more)
    have beyond : (1 : ℚ) < t := by
      have shifted := Int.lt_ceil.mp (same ▸ two)
      exact_mod_cast shifted
    have below := Int.ceil_lt_add_one t
    have above := Int.le_ceil (c * t)
    rw [same] at above
    nlinarith
  · intro small
    cases nonneg.eq_or_lt with
    | inl zero => simp [← zero]
    | inr pos =>
      have less : t ≤ 1 := by nlinarith
      have one : ⌈t⌉ = 1 := Int.ceil_eq_iff.mpr ⟨by push_cast; linarith, by exact_mod_cast less⟩
      have grown : 0 < c * t := by nlinarith
      have one' : ⌈c * t⌉ = 1 := Int.ceil_eq_iff.mpr ⟨by push_cast; linarith, by exact_mod_cast small⟩
      rw [one, one']

/-- The whole part is never the multiple rounded up. -/
theorem ceil_grown_iff (nonneg : 0 ≤ f) (factor : 2 ≤ c) : ⌈(w + f) * c⌉ = w ↔ (w : ℚ) + f = 0 := by
  have whole : (0 : ℚ) ≤ w := Nat.cast_nonneg w
  constructor
  · intro same
    have upper := Int.le_ceil (((w : ℚ) + f) * c)
    rw [same] at upper
    push_cast at upper
    nlinarith
  · intro zero
    have none : (w : ℚ) = 0 := by linarith
    rw [zero, zero_mul, Int.ceil_zero]
    have none' : w = 0 := by exact_mod_cast none
    rw [none']
    rfl

/-- The whole part is the share rounded up where it is one. -/
theorem ceil_shrunk_iff (nonneg : 0 ≤ f) (less : f < 1) (factor : 10 ≤ c) :
    ⌈(w + f) / c⌉ = w ↔ (w : ℚ) + f = 0 ∨ w = 1 := by
  have pos : 0 < c := by linarith
  constructor
  · intro same
    by_contra neither
    rw [not_or] at neither
    have some_ : (0 : ℚ) < w + f := by
      have whole : (0 : ℚ) ≤ w := Nat.cast_nonneg w
      exact lt_of_le_of_ne (by linarith) (Ne.symm neither.1)
    have up := Int.one_le_ceil_iff.mpr (div_pos some_ pos)
    have two : 2 ≤ w := by
      rw [same] at up
      omega
    have two' : (2 : ℚ) ≤ w := by exact_mod_cast two
    have lower := (Int.ceil_eq_iff.mp same).1
    push_cast at lower
    rw [lt_div_iff₀ pos] at lower
    nlinarith
  · intro either
    cases either with
    | inl zero =>
      have none : w = 0 := by
        have whole : (0 : ℚ) ≤ w := Nat.cast_nonneg w
        have none : (w : ℚ) = 0 := by linarith
        exact_mod_cast none
      rw [zero, zero_div, Int.ceil_zero, none]
      rfl
    | inr one =>
      rw [one, Int.ceil_eq_iff]
      constructor
      · have share : (0 : ℚ) < ((1 : Nat) + f) / c := div_pos (by push_cast; linarith) pos
        push_cast at share ⊢
        linarith
      · rw [div_le_iff₀ pos]
        push_cast
        linarith

end Ceiling

section Nearest
variable {y : ℚ}

theorem ulp_pos (y : ℚ) : 0 < ulp y := zpow_pos (by norm_num) _

theorem roundHalfEven_nonneg {t : ℚ} (nonneg : 0 ≤ t) : 0 ≤ roundHalfEven t := by
  have floor := Int.floor_nonneg.mpr nonneg
  unfold roundHalfEven
  split
  · exact floor
  · split
    · omega
    · split <;> omega

theorem roundHalfEven_le {t : ℚ} (nonneg : 0 ≤ t) : (roundHalfEven t : ℚ) ≤ 2 * t := by
  have floor := Int.floor_le t
  have floor' : (0 : ℚ) ≤ ⌊t⌋ := by exact_mod_cast Int.floor_nonneg.mpr nonneg
  have above := Int.lt_floor_add_one t
  unfold roundHalfEven
  split
  · linarith
  · rename_i half
    rw [not_lt] at half
    split
    · push_cast
      linarith
    · split
      · linarith
      · push_cast
        linarith

theorem roundHalfEven_int (n : Int) : roundHalfEven n = n := by
  simp [roundHalfEven]

theorem nearestMagnitude_nonneg (nonneg : 0 ≤ y) : 0 ≤ nearestMagnitude y := by
  have unit := ulp_pos y
  have count := roundHalfEven_nonneg (div_nonneg nonneg unit.le)
  have count' : (0 : ℚ) ≤ roundHalfEven (y / ulp y) := by exact_mod_cast count
  exact mul_nonneg count' unit.le

/-- A double is at most twice the number it stands for, also where it is subnormal. -/
theorem nearestMagnitude_le (nonneg : 0 ≤ y) : nearestMagnitude y ≤ 2 * y := by
  have unit := ulp_pos y
  have count := roundHalfEven_le (div_nonneg nonneg unit.le)
  have scaled := mul_le_mul_of_nonneg_right count unit.le
  have whole : 2 * (y / ulp y) * ulp y = 2 * y := by
    rw [mul_assoc, div_mul_cancel₀ y unit.ne']
  rw [nearestMagnitude]
  linarith

theorem nearestMagnitude_zero : nearestMagnitude 0 = 0 := by
  have none := roundHalfEven_int 0
  rw [nearestMagnitude, zero_div]
  push_cast at none
  rw [none]
  push_cast
  rw [zero_mul]

theorem nearest_signed {s : Int} (sign : IsSign s) (nonneg : 0 ≤ y) :
    nearest (s * y) = s * nearestMagnitude y := by
  cases sign.unit with
  | inl plus => simp [plus, nearest, nonneg]
  | inr minus =>
    rw [minus, nearest]
    split
    · rename_i low
      have zero : y = 0 := by
        push_cast at low
        linarith
      simp [zero, nearestMagnitude_zero]
    · simp

/-- Whole numbers of 53 bits are doubles. -/
theorem nearestMagnitude_natCast {n : Nat} (small : n < 2 ^ 53) : nearestMagnitude n = n := by
  have log : Int.log 2 (n : ℚ) = Nat.log 2 n := Int.log_natCast 2 n
  have bits : Nat.log 2 n ≤ 52 := by
    cases Nat.eq_zero_or_pos n with
    | inl zero => simp [zero]
    | inr pos =>
      have below := (Nat.log_lt_iff_lt_pow (by decide) (by omega)).mpr small
      omega
  obtain ⟨k, unit⟩ : ∃ k : Nat, ulp (n : ℚ) = (2 ^ k : ℚ)⁻¹ := by
    refine ⟨(-max (Int.log 2 (n : ℚ) - 52) (-1074)).toNat, ?_⟩
    have low : max (Int.log 2 (n : ℚ) - 52) (-1074) ≤ 0 := by
      rw [log]
      omega
    rw [ulp, ← zpow_natCast, ← zpow_neg, Int.toNat_of_nonneg (by omega), neg_neg]
  have count : (n : ℚ) / ulp (n : ℚ) = ((n * 2 ^ k : Int) : ℚ) := by
    rw [unit, div_inv_eq_mul]
    push_cast
    rfl
  rw [nearestMagnitude, count, roundHalfEven_int, unit]
  push_cast
  rw [mul_assoc, mul_inv_cancel₀ (by positivity), mul_one]

end Nearest

section Order
variable {x y : ℚ}

theorem roundHalfEven_bounds (t : ℚ) : ⌊t⌋ ≤ roundHalfEven t ∧ roundHalfEven t ≤ ⌊t⌋ + 1 := by
  unfold roundHalfEven
  split
  · omega
  · split
    · omega
    · split <;> omega

theorem roundHalfEven_near (t : ℚ) : t - 1 / 2 ≤ roundHalfEven t ∧ (roundHalfEven t : ℚ) ≤ t + 1 / 2 := by
  have low := Int.floor_le t
  have high := Int.lt_floor_add_one t
  unfold roundHalfEven
  split_ifs with below above even
  · constructor <;> linarith
  · push_cast
    constructor <;> linarith
  · constructor <;> linarith
  · push_cast
    constructor <;> linarith

theorem roundHalfEven_mono {s t : ℚ} (le : s ≤ t) : roundHalfEven s ≤ roundHalfEven t := by
  have floors := Int.floor_le_floor le
  have below := roundHalfEven_bounds s
  have above := roundHalfEven_bounds t
  by_cases same : ⌊s⌋ = ⌊t⌋
  · by_cases low : s - ⌊s⌋ < 1 / 2
    · have down : roundHalfEven s = ⌊s⌋ := if_pos low
      omega
    · by_cases high : 1 / 2 < t - ⌊t⌋
      · have up : roundHalfEven t = ⌊t⌋ + 1 := by
          rw [roundHalfEven, if_neg (by linarith), if_pos high]
        omega
      · -- both are halves of one whole number
        rw [same] at low
        have equal : s = t := le_antisymm le (by linarith)
        rw [equal]
  · omega

/-- A power of two between two numbers of different units is a double of both. -/
theorem power_between (pos : 0 < x) (le : x ≤ y) (differ : ulp x ≠ ulp y) :
    ∃ m n : Int, x ≤ m * ulp x ∧ n * ulp y ≤ y ∧ (m : ℚ) * ulp x = n * ulp y := by
  have logs : Int.log 2 x ≤ Int.log 2 y := Int.log_mono_right pos le
  have apart : max (Int.log 2 x - 52) (-1074) ≠ max (Int.log 2 y - 52) (-1074) := fun same =>
    differ (by rw [ulp, ulp, same])
  have more : Int.log 2 x + 1 ≤ Int.log 2 y := by omega
  obtain ⟨j, whole⟩ := Int.eq_ofNat_of_zero_le
    (show 0 ≤ Int.log 2 y - max (Int.log 2 x - 52) (-1074) by omega)
  obtain ⟨k, whole'⟩ := Int.eq_ofNat_of_zero_le
    (show 0 ≤ Int.log 2 y - max (Int.log 2 y - 52) (-1074) by omega)
  have split_ : ((2 ^ j : Int) : ℚ) * ulp x = 2 ^ Int.log 2 y := by
    rw [ulp]
    push_cast
    rw [← zpow_natCast, ← zpow_add₀ (by norm_num)]
    congr 1
    omega
  have split' : ((2 ^ k : Int) : ℚ) * ulp y = 2 ^ Int.log 2 y := by
    rw [ulp]
    push_cast
    rw [← zpow_natCast, ← zpow_add₀ (by norm_num)]
    congr 1
    omega
  refine ⟨2 ^ j, 2 ^ k, ?_, ?_, split_.trans split'.symm⟩
  · rw [split_]
    have above := (Int.lt_zpow_succ_log_self (b := 2) (by decide) x).le
    push_cast at above
    exact above.trans (zpow_le_zpow_right₀ (by norm_num) more)
  · rw [split']
    have below := Int.zpow_log_le_self (b := 2) (by decide) (lt_of_lt_of_le pos le)
    exact_mod_cast below

theorem nearestMagnitude_mono (nonneg : 0 ≤ x) (le : x ≤ y) : nearestMagnitude x ≤ nearestMagnitude y := by
  cases nonneg.eq_or_lt with
  | inl zero =>
    rw [← zero, nearestMagnitude_zero]
    exact nearestMagnitude_nonneg (by linarith)
  | inr pos =>
    have unit := ulp_pos x
    have unit' := ulp_pos y
    by_cases same : ulp x = ulp y
    · have counts : roundHalfEven (x / ulp x) ≤ roundHalfEven (y / ulp x) :=
        roundHalfEven_mono (div_le_div_of_nonneg_right le unit.le)
      rw [nearestMagnitude, nearestMagnitude, ← same]
      exact mul_le_mul_of_nonneg_right (by exact_mod_cast counts) unit.le
    · obtain ⟨m, n, above, below, level⟩ := power_between pos le same
      have upper : roundHalfEven (x / ulp x) ≤ m := by
        rw [← roundHalfEven_int m]
        exact roundHalfEven_mono ((div_le_iff₀ unit).mpr above)
      have lower : n ≤ roundHalfEven (y / ulp y) := by
        rw [← roundHalfEven_int n]
        exact roundHalfEven_mono ((le_div_iff₀ unit').mpr below)
      calc nearestMagnitude x ≤ m * ulp x := mul_le_mul_of_nonneg_right (by exact_mod_cast upper) unit.le
        _ = n * ulp y := level
        _ ≤ nearestMagnitude y := mul_le_mul_of_nonneg_right (by exact_mod_cast lower) unit'.le

end Order

end Binary64
