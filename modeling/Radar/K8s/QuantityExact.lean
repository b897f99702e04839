import Radar.K8s.QuantityParsers

/- When the four readers give a quantity's value. -/
namespace QuantityExact
open Binary64 Quantities QuantityParsers

section Conditions

/-- A number of cores read through two roundings: of the number to a double, and of the double's
    billionfold. -/
def billionfold (q : Quantity) : ℚ := nearestMagnitude (nearestMagnitude q.magnitude * 1000000000)

/-- The roundings must not carry the nanocores below the next whole number, nor beyond it. -/
def FloatExact (p : Platform) (q : Quantity) : Prop := if billionfold q < 0x8000000000000000 then
    (⌈q.magnitude * 10 ^ 9⌉ : ℚ) ≤ billionfold q ∧ billionfold q < ⌈q.magnitude * 10 ^ 9⌉ + 1
  else p.toInt64 (q.sign.unit * billionfold q) = q.sign.unit * ⌈q.magnitude * 10 ^ 9⌉

def CpuExact (p : Platform) (q : Quantity) : Prop := match q.suffix with
  | .decimalSI .nano => q.fraction = 0
  | .decimalSI .micro => q.fraction = 0
  | .decimalSI .milli => q.fraction = 0
  | .decimalSI .one => FloatExact p q
  | .exponent _ => FloatExact p q
  | _ => q.mantissa = 0

def UiCpuExact (q : Quantity) : Prop := match q.suffix with
  | .decimalSI .nano => q.fraction = 0
  | .decimalSI .milli => q.fraction = 0
  | .decimalSI .micro => q.mantissa * 10 ^ 9 ≤ 1
  | .decimalSI .one => True
  | .exponent _ => True
  | _ => q.magnitude * 10 ^ 9 ≤ 1

def MemoryExact (q : Quantity) : Prop := match q.suffix with
  | .decimalSI .nano => q.mantissa = 0 ∨ q.wholePart = 1
  | .decimalSI .micro => q.mantissa = 0 ∨ q.wholePart = 1
  | .decimalSI .milli => q.mantissa = 0 ∨ q.wholePart = 1
  | .decimalSI .kilo => q.mantissa = 0
  | .decimalSI .peta => q.mantissa = 0
  | .decimalSI .exa => q.mantissa = 0
  | .binarySI .pebi => q.mantissa = 0
  | .binarySI .exbi => q.mantissa = 0
  | .exponent e =>
    if e.power = 0 then q.fraction = 0
    else if 0 < e.power then q.mantissa = 0
    else q.mantissa = 0 ∨ q.wholePart = 1
  | _ => q.fraction = 0

/-- What the UI's pattern matches but its tables lack. -/
def UiSuffixExact (q : Quantity) : Prop := match q.suffix with
  | .decimalSI .nano => q.mantissa ≤ 1
  | .decimalSI .micro => q.mantissa ≤ 1
  | .decimalSI .milli => q.mantissa ≤ 1
  | .decimalSI .peta => q.magnitude ≤ 1
  | .decimalSI .exa => q.magnitude ≤ 1
  | .binarySI .pebi => q.magnitude ≤ 1
  | .binarySI .exbi => q.magnitude ≤ 1
  | _ => True

def UiMemoryExact (q : Quantity) : Prop := (Plain q → UiSuffixExact q) ∧ (¬ Plain q → q.mantissa = 0)

end Conditions

section Integers
variable {q : Quantity} {s : List Char} {v : ℚ} {n : Int}

/-- A whole number no larger than one that fits. -/
theorem signed_range (rounded : roundAway v = q.sign.unit * n) (fits : Fits v) {a : Int}
    (nonneg : 0 ≤ a) (below : a ≤ n) :
    -0x8000000000000000 ≤ q.sign.unit * a ∧ q.sign.unit * a < 0x8000000000000000 := by
  rw [Fits, rounded] at fits
  obtain ⟨low, high⟩ := fits
  cases (sign_isSign q.sign).unit with
  | inl plus =>
    rw [plus] at low high ⊢
    omega
  | inr minus =>
    rw [minus] at low high ⊢
    omega

theorem inInt64_some (low : -0x8000000000000000 ≤ n) (high : n < 0x8000000000000000) :
    inInt64 n = some n := if_pos ⟨low, high⟩

theorem wrap64_self (low : -0x8000000000000000 ≤ n) (high : n < 0x8000000000000000) : wrap64 n = n := by
  unfold wrap64
  exact Int.bmod_eq_of_le (by omega) (by omega)

theorem inInt64_range {m : Int} (taken : inInt64 n = some m) :
    m = n ∧ -0x8000000000000000 ≤ n ∧ n < 0x8000000000000000 := by
  unfold inInt64 at taken
  split at taken
  · rename_i range
    exact ⟨(Option.some.inj taken).symm, range⟩
  · cases taken

theorem wholePart_le (q : Quantity) {F : Int} (pos : 0 < F) :
    (q.wholePart : Int) * F ≤ ⌈q.mantissa * F⌉ := by
  have upper := Int.le_ceil (q.mantissa * F)
  have frac := fraction_nonneg q
  have pos' : (0 : ℚ) < F := by exact_mod_cast pos
  have part : (q.wholePart : ℚ) * F ≤ q.mantissa * F := by
    apply mul_le_mul_of_nonneg_right _ pos'.le
    unfold Quantity.mantissa
    linarith
  have both : ((q.wholePart * F : Int) : ℚ) ≤ (⌈q.mantissa * F⌉ : Int) := by
    push_cast
    linarith
  exact_mod_cast both

theorem decimal_empty {ds : List Char} (none : ds = []) : decimal ds = 0 := by
  rw [none]
  rfl

/-- A whole number under a suffix the reader knows: the fraction is all it loses. -/
theorem scaled_iff {F : Int} (pos : 0 < F)
    (scan : sscanfInt s = if q.whole.chars = [] then none else inInt64 (q.sign.unit * q.wholePart))
    (rounded : roundAway v = q.sign.unit * ⌈q.mantissa * F⌉) (fits : Fits v) :
    ((sscanfInt s).map fun n => wrap64 (n * F)).getD 0 = roundAway v ↔ q.fraction = 0 := by
  have bound := wholePart_le q pos
  have whole : (q.wholePart : Int) ≤ q.wholePart * F := by
    nlinarith [Int.natCast_nonneg q.wholePart]
  have scaled := signed_range rounded fits (by positivity) bound
  have plain := signed_range rounded fits (Int.natCast_nonneg q.wholePart) (whole.trans bound)
  have read : ((sscanfInt s).map fun n => wrap64 (n * F)).getD 0 = q.sign.unit * (q.wholePart * F) := by
    rw [scan]
    split
    · rename_i empty
      simp [Quantity.wholePart, decimal_empty empty]
    · rw [inInt64_some plain.1 plain.2, Option.map_some, Option.getD_some, mul_assoc,
        wrap64_self scaled.1 scaled.2]
  have ceil := @ceil_part_iff q.wholePart q.fraction (fraction_nonneg q) F pos
  rw [read, rounded, signed_inj (sign_isSign q.sign), eq_comm]
  exact ceil

theorem unscaled (s : List Char) :
    (sscanfInt s).getD 0 = ((sscanfInt s).map fun n => wrap64 (n * 1)).getD 0 := by
  cases read : sscanfInt s with
  | none => rfl
  | some n =>
    simp only [sscanfInt] at read
    split at read
    · cases read
    · obtain ⟨rfl, low, high⟩ := inInt64_range read
      rw [Option.map_some, Option.getD_some, Option.getD_some, mul_one, wrap64_self low high]

/-- A whole number whose suffix the reader does not see. -/
theorem unread_iff
    (scan : sscanfInt s = if q.whole.chars = [] then none else inInt64 (q.sign.unit * q.wholePart))
    (rounded : roundAway v = q.sign.unit * n) (fits : Fits v)
    (some_ : 0 < q.wholePart → 0 < n) : (sscanfInt s).getD 0 = roundAway v ↔ n = q.wholePart := by
  have sign := sign_isSign q.sign
  rw [rounded, scan]
  by_cases empty : q.whole.chars = []
  · have none : q.wholePart = 0 := decimal_empty empty
    have zero : (0 : Int) = q.sign.unit * 0 := by ring
    rw [if_pos empty, Option.getD_none, none, zero, signed_inj sign]
    omega
  · rw [if_neg empty]
    cases read : inInt64 (q.sign.unit * q.wholePart) with
    | some m =>
      obtain ⟨rfl, _⟩ := inInt64_range read
      rw [Option.getD_some, signed_inj sign, eq_comm]
    | none =>
      have out : ¬ (-0x8000000000000000 ≤ q.sign.unit * q.wholePart ∧
          q.sign.unit * q.wholePart < 0x8000000000000000) := by
        intro range
        rw [inInt64_some range.1 range.2] at read
        cases read
      have large : 0 < q.wholePart := by
        by_contra none
        have zero : q.wholePart = 0 := by omega
        rw [zero] at out
        simp at out
      have pos := some_ large
      have range := signed_range rounded fits pos.le (le_refl n)
      constructor
      · intro same
        cases sign.unit with
        | inl plus =>
          rw [plus] at same
          simp at same
          omega
        | inr minus =>
          rw [minus] at same
          simp at same
          omega
      · intro same
        rw [same] at range
        exact absurd range out

end Integers

section Cores
variable {p : Platform} {q : Quantity}

theorem nearestMagnitude_small {m : ℚ} (nonneg : 0 ≤ m) (small : m < 2 ^ 200) :
    float64 (q.sign.unit * m) = some (q.sign.unit * nearestMagnitude m) := by
  have sign := sign_isSign q.sign
  have below := nearestMagnitude_le nonneg
  have above := nearestMagnitude_nonneg nonneg
  have size : |(q.sign.unit : ℚ) * nearestMagnitude m| = nearestMagnitude m := by
    cases sign.unit with
    | inl plus =>
      rw [plus]
      push_cast
      rw [one_mul, abs_of_nonneg above]
    | inr minus =>
      rw [minus]
      push_cast
      rw [neg_one_mul, abs_neg, abs_of_nonneg above]
  have inside : nearestMagnitude m < 2 ^ 1024 := by
    calc nearestMagnitude m ≤ 2 * m := below
      _ < 2 * 2 ^ 200 := by linarith
      _ = 2 ^ 201 := by norm_num
      _ ≤ 2 ^ 1024 := pow_le_pow_right₀ (by norm_num) (by norm_num)
  rw [float64, nearest_signed sign nonneg, size, if_pos inside]

/-- What %f and the multiplication make of a magnitude. -/
theorem float_reading {m : ℚ} (nonneg : 0 ≤ m) (small : m < 2 ^ 200) :
    ((float64 (q.sign.unit * m)).map fun n => p.toInt64 (nearest (n * 1000000000))).getD 0 =
      p.toInt64 (q.sign.unit * nearestMagnitude (nearestMagnitude m * 1000000000)) := by
  have product : 0 ≤ nearestMagnitude m * 1000000000 :=
    mul_nonneg (nearestMagnitude_nonneg nonneg) (by norm_num)
  rw [nearestMagnitude_small nonneg small, Option.map_some, Option.getD_some, mul_assoc,
    nearest_signed (sign_isSign q.sign) product]

theorem toInt64_signed {y : ℚ} (nonneg : 0 ≤ y) (small : y < 0x8000000000000000) :
    p.toInt64 (q.sign.unit * y) = q.sign.unit * ⌊y⌋ := by
  have sign := sign_isSign q.sign
  have truncated := truncate_signed sign nonneg
  have floor := Int.floor_nonneg.mpr nonneg
  have below : ⌊y⌋ < 0x8000000000000000 := Int.floor_lt.mpr (by exact_mod_cast small)
  rw [p.truncates _ ?_ ?_, truncated]
  · rw [truncated]
    cases sign.unit with
    | inl plus => rw [plus]; omega
    | inr minus => rw [minus]; omega
  · rw [truncated]
    cases sign.unit with
    | inl plus => rw [plus]; omega
    | inr minus => rw [minus]; omega

theorem nanocores_bound (fits : Fits q.nanocores) :
    ⌈q.magnitude * 10 ^ 9⌉ ≤ 0x8000000000000000 ∧ q.magnitude * 10 ^ 9 ≤ 0x8000000000000000 := by
  have nonneg : 0 ≤ ⌈q.magnitude * 10 ^ 9⌉ :=
    Int.ceil_nonneg (mul_nonneg (magnitude_nonneg q) (by norm_num))
  have range := signed_range (roundAway_nanocores q) fits nonneg (le_refl _)
  have count : ⌈q.magnitude * 10 ^ 9⌉ ≤ 0x8000000000000000 := by
    cases (sign_isSign q.sign).unit with
    | inl plus =>
      rw [plus] at range
      omega
    | inr minus =>
      rw [minus] at range
      omega
  exact ⟨count, by exact_mod_cast Int.ceil_le.mp count⟩

theorem small_magnitude {m : ℚ} (bound : m * 10 ^ 9 ≤ 0x8000000000000000) : m < 2 ^ 200 := by
  have grows : (0x8000000000000000 : ℚ) < 2 ^ 200 * 10 ^ 9 := by norm_num
  by_contra large
  rw [not_lt] at large
  have scaled := mul_le_mul_of_nonneg_right large (show (0 : ℚ) ≤ 10 ^ 9 by norm_num)
  linarith

/-- Plain cores, also with an exponent. -/
theorem float_iff (fits : Fits q.nanocores) :
    ((float64 q.value).map fun n => p.toInt64 (nearest (n * 1000000000))).getD 0 =
      roundAway q.nanocores ↔ FloatExact p q := by
  have nonneg := magnitude_nonneg q
  have bound := nanocores_bound fits
  have product : 0 ≤ billionfold q :=
    nearestMagnitude_nonneg (mul_nonneg (nearestMagnitude_nonneg nonneg) (by norm_num))
  have read := @float_reading p q q.magnitude nonneg (small_magnitude bound.2)
  rw [Quantity.value, read, roundAway_nanocores, FloatExact]
  split
  · rename_i small
    rw [show nearestMagnitude (nearestMagnitude q.magnitude * 1000000000) = billionfold q from rfl,
      toInt64_signed product small, signed_inj (sign_isSign q.sign), Int.floor_eq_iff]
  · rw [billionfold]

/-- A suffix that %f does not see leaves the value a thousandth of what it is, at most. -/
theorem unseen_iff (fits : Fits q.nanocores) (scale : 1000 ≤ q.suffix.scale) :
    ((float64 (q.sign.unit * q.mantissa)).map fun n => p.toInt64 (nearest (n * 1000000000))).getD 0 =
      roundAway q.nanocores ↔ q.mantissa = 0 := by
  have nonneg := mantissa_nonneg q
  have bound := (nanocores_bound fits).2
  have larger : 1000 * q.mantissa ≤ q.magnitude := by
    unfold Quantity.magnitude
    nlinarith
  have small : q.mantissa * 10 ^ 9 ≤ 0x8000000000000000 := by linarith
  have read := @float_reading p q q.mantissa nonneg (small_magnitude small)
  have first := nearestMagnitude_le nonneg
  have first' := nearestMagnitude_nonneg nonneg
  have product : 0 ≤ nearestMagnitude q.mantissa * 1000000000 := mul_nonneg first' (by norm_num)
  have second := nearestMagnitude_le product
  have second' := nearestMagnitude_nonneg product
  rw [read, toInt64_signed second' (by linarith), roundAway_nanocores, signed_inj (sign_isSign q.sign)]
  constructor
  · intro same
    have below := Int.floor_le (nearestMagnitude (nearestMagnitude q.mantissa * 1000000000))
    have above := Int.le_ceil (q.magnitude * 10 ^ 9)
    rw [same] at below
    linarith
  · intro zero
    rw [Quantity.magnitude, zero, zero_mul, zero_mul, Int.ceil_zero, nearestMagnitude_zero, zero_mul,
      nearestMagnitude_zero, Int.floor_zero]

theorem nanocores_scaled {F : Int} (scale : q.suffix.scale * 10 ^ 9 = F) :
    roundAway q.nanocores = q.sign.unit * ⌈q.mantissa * F⌉ := by
  rw [roundAway_nanocores, Quantity.magnitude, mul_assoc, scale]

theorem numeral_scan (q : Quantity) : sscanfInt q.numeral =
    if q.whole.chars = [] then none else inInt64 (q.sign.unit * q.wholePart) := by
  have scan := sscanfInt_numeral q ends_nil
  rw [List.append_nil] at scan
  exact scan

theorem marked_iff (mark : marked q.suffix = true) :
    ((sscanfFloat q.text).map fun n => p.toInt64 (nearest (n * 1000000000))).getD 0 =
      roundAway q.nanocores ↔ q.mantissa = 0 := by
  have zero : (0 : Int) = q.sign.unit * 0 := by ring
  have scale := scale_pos q.suffix
  have nonneg := mantissa_nonneg q
  rw [sscanfFloat_marked mark, Option.map_none, Option.getD_none, roundAway_nanocores, zero,
    signed_inj (sign_isSign q.sign), Quantity.magnitude]
  constructor
  · intro same
    have above := Int.le_ceil (q.mantissa * q.suffix.scale * 10 ^ 9)
    rw [← same] at above
    push_cast at above
    by_contra some_
    have pos : 0 < q.mantissa * q.suffix.scale * 10 ^ 9 :=
      mul_pos (mul_pos (lt_of_le_of_ne nonneg (Ne.symm some_)) scale) (by norm_num)
    linarith
  · intro none
    rw [none, zero_mul, zero_mul, Int.ceil_zero]

theorem cpu_iff (fits : Fits q.nanocores) : parseCPU p q.text = roundAway q.nanocores ↔ CpuExact p q := by
  cases kind : q.suffix with
  | decimalSI s =>
    have plain : ∀ e, q.suffix ≠ .exponent e := by simp [kind]
    have unseen : marked q.suffix = false → 1000 ≤ q.suffix.scale → s ≠ .nano → s ≠ .micro →
        s ≠ .milli → (parseCPU p q.text = roundAway q.nanocores ↔ q.mantissa = 0) := by
      intro mark scale nano micro milli
      rw [parseCPU_float (by simpa [kind] using nano) (by simpa [kind] using micro)
        (by simpa [kind] using milli), sscanfFloat_plain mark plain]
      exact unseen_iff fits scale
    cases s with
    | nano =>
      have scaled := @nanocores_scaled q 1 (by rw [kind]; norm_num [Suffix.scale, DecimalSI.scale])
      rw [parseCPU_nano kind, unscaled, scaled_iff (by decide) (numeral_scan q) scaled fits, CpuExact, kind]
    | micro =>
      have scaled := @nanocores_scaled q 1000 (by rw [kind]; norm_num [Suffix.scale, DecimalSI.scale])
      rw [parseCPU_micro kind, scaled_iff (by decide) (numeral_scan q) scaled fits, CpuExact, kind]
    | milli =>
      have scaled := @nanocores_scaled q 1000000 (by rw [kind]; norm_num [Suffix.scale, DecimalSI.scale])
      rw [parseCPU_milli kind, scaled_iff (by decide) (numeral_scan q) scaled fits, CpuExact, kind]
    | one =>
      have value : (q.sign.unit : ℚ) * q.mantissa = q.value := by
        rw [Quantity.value, Quantity.magnitude, kind]
        simp [Suffix.scale, DecimalSI.scale]
      rw [parseCPU_float (by simp [kind]) (by simp [kind]) (by simp [kind]),
        sscanfFloat_plain (by rw [kind]; rfl) plain, value, float_iff fits, CpuExact, kind]
    | peta | exa =>
      rw [parseCPU_float (by simp [kind]) (by simp [kind]) (by simp [kind]),
        marked_iff (by rw [kind]; rfl), CpuExact, kind]
    | _ =>
      rw [unseen (by rw [kind]; rfl) (by rw [kind]; norm_num [Suffix.scale, DecimalSI.scale])
        (by simp) (by simp) (by simp), CpuExact, kind]
  | binarySI s =>
    have plain : ∀ e, q.suffix ≠ .exponent e := by simp [kind]
    rw [parseCPU_float (by simp [kind]) (by simp [kind]) (by simp [kind])]
    cases s with
    | pebi | exbi => rw [marked_iff (by rw [kind]; rfl), CpuExact, kind]
    | _ =>
      rw [sscanfFloat_plain (by rw [kind]; rfl) plain,
        unseen_iff fits (by rw [kind]; norm_num [Suffix.scale, BinarySI.scale]), CpuExact, kind]
  | exponent e =>
    rw [parseCPU_float (by simp [kind]) (by simp [kind]) (by simp [kind]), sscanfFloat_exponent kind,
      float_iff fits, CpuExact, kind]

end Cores

section UiCores
variable {q : Quantity}

theorem parseInt_value (q : Quantity) : (parseInt q.numeral).getD 0 = q.sign.unit * q.wholePart := by
  have scan := parseInt_numeral q ends_nil
  rw [List.append_nil] at scan
  rw [scan]
  split
  · rename_i empty
    simp [Quantity.wholePart, decimal_empty empty]
  · rfl

/-- The UI takes the whole part of a number under a suffix it knows. -/
theorem ui_scaled_iff {F : Int} (pos : 0 < F) (scale : q.suffix.scale * 10 ^ 9 = F) :
    roundAway (((q.sign.unit * q.wholePart : Int) : ℚ) * F) = roundAway q.nanocores ↔ q.fraction = 0 := by
  have sign := sign_isSign q.sign
  have pos' : (0 : ℚ) < F := by exact_mod_cast pos
  have nonneg : (0 : ℚ) ≤ q.wholePart * F := mul_nonneg (Nat.cast_nonneg _) pos'.le
  have grouped : ((q.sign.unit * q.wholePart : Int) : ℚ) * F = q.sign.unit * (q.wholePart * F) := by
    push_cast
    ring
  have whole : ⌈(q.wholePart : ℚ) * F⌉ = (q.wholePart : Int) * F := by
    have cast : (q.wholePart : ℚ) * F = ((q.wholePart * F : Int) : ℚ) := by push_cast; rfl
    rw [cast, Int.ceil_intCast]
  rw [grouped, roundAway_signed sign nonneg, whole, nanocores_scaled scale, signed_inj sign, eq_comm]
  exact @ceil_part_iff q.wholePart q.fraction (fraction_nonneg q) F pos

theorem ui_number {cores : ℚ} (read : parseFloat q.text = some cores)
    (nano : q.suffix ≠ .decimalSI .nano) (milli : q.suffix ≠ .decimalSI .milli) :
    parseCPUToNanocores q.text = cores * 10 ^ 9 := by
  rw [nanocores_float nano milli, read, Option.map_some, Option.getD_some]
  norm_num

theorem ui_unseen (q : Quantity) : roundAway ((q.sign.unit : ℚ) * q.mantissa * 10 ^ 9) =
    q.sign.unit * ⌈q.mantissa * 10 ^ 9⌉ := by
  rw [mul_assoc]
  exact roundAway_signed (sign_isSign q.sign) (mul_nonneg (mantissa_nonneg q) (by norm_num))

/-- A suffix left unread makes no difference up to one nanocore. -/
theorem ui_larger_iff (scale : 2 ≤ q.suffix.scale) :
    roundAway ((q.sign.unit : ℚ) * q.mantissa * 10 ^ 9) = roundAway q.nanocores ↔
      q.magnitude * 10 ^ 9 ≤ 1 := by
  have nonneg : 0 ≤ q.mantissa * 10 ^ 9 := mul_nonneg (mantissa_nonneg q) (by norm_num)
  have grouped : q.magnitude * 10 ^ 9 = q.suffix.scale * (q.mantissa * 10 ^ 9) := by
    rw [Quantity.magnitude]
    ring
  rw [ui_unseen, roundAway_nanocores, signed_inj (sign_isSign q.sign), grouped, eq_comm]
  exact ceil_factor_iff nonneg scale

theorem ui_cpu_iff (q : Quantity) :
    roundAway (parseCPUToNanocores q.text) = roundAway q.nanocores ↔ UiCpuExact q := by
  cases kind : q.suffix with
  | decimalSI s =>
    have plain : ∀ e, q.suffix ≠ .exponent e := by simp [kind]
    have larger : 2 ≤ q.suffix.scale → s ≠ .nano → s ≠ .milli →
        (roundAway (parseCPUToNanocores q.text) = roundAway q.nanocores ↔ q.magnitude * 10 ^ 9 ≤ 1) := by
      intro scale nano milli
      rw [ui_number (parseFloat_plain plain) (by simpa [kind] using nano) (by simpa [kind] using milli)]
      exact ui_larger_iff scale
    cases s with
    | nano =>
      have scaled := @ui_scaled_iff q 1 (by decide) (by rw [kind]; norm_num [Suffix.scale, DecimalSI.scale])
      rw [Int.cast_one, mul_one] at scaled
      rw [nanocores_nano kind, parseInt_value, scaled, UiCpuExact, kind]
    | milli =>
      have scaled := @ui_scaled_iff q 1000000 (by decide)
        (by rw [kind]; norm_num [Suffix.scale, DecimalSI.scale])
      rw [nanocores_milli kind, parseInt_value, UiCpuExact, kind]
      exact scaled
    | one =>
      have same : (q.sign.unit : ℚ) * q.mantissa * 10 ^ 9 = q.nanocores := by
        rw [Quantity.nanocores, Quantity.value, Quantity.magnitude, kind]
        simp [Suffix.scale, DecimalSI.scale]
      rw [ui_number (parseFloat_plain plain) (by simp [kind]) (by simp [kind]), same, UiCpuExact, kind]
      exact iff_of_true rfl trivial
    | micro =>
      have nonneg : 0 ≤ q.magnitude * 10 ^ 9 := mul_nonneg (magnitude_nonneg q) (by norm_num)
      have grouped : q.mantissa * 10 ^ 9 = 10 ^ 6 * (q.magnitude * 10 ^ 9) := by
        rw [Quantity.magnitude, kind]
        norm_num [Suffix.scale, DecimalSI.scale]
        ring
      rw [ui_number (parseFloat_plain plain) (by simp [kind]) (by simp [kind]), ui_unseen,
        roundAway_nanocores, signed_inj (sign_isSign q.sign), UiCpuExact, kind, grouped]
      exact ceil_factor_iff nonneg (by norm_num)
    | _ =>
      rw [larger (by rw [kind]; norm_num [Suffix.scale, DecimalSI.scale]) (by simp) (by simp),
        UiCpuExact, kind]
  | binarySI s =>
    have plain : ∀ e, q.suffix ≠ .exponent e := by simp [kind]
    rw [ui_number (parseFloat_plain plain) (by simp [kind]) (by simp [kind])]
    cases s <;>
      rw [ui_larger_iff (by rw [kind]; norm_num [Suffix.scale, BinarySI.scale]), UiCpuExact, kind]
  | exponent e =>
    rw [ui_number (parseFloat_exponent kind) (by simp [kind]) (by simp [kind]), UiCpuExact, kind]
    exact iff_of_true rfl trivial

end UiCores

section Bytes
variable {q : Quantity}

theorem text_scan (q : Quantity) : sscanfInt q.text =
    if q.whole.chars = [] then none else inInt64 (q.sign.unit * q.wholePart) :=
  sscanfInt_numeral q (suffix_ends q.suffix)

theorem ceil_pos_of_whole (q : Quantity) (some_ : 0 < q.wholePart) : 0 < ⌈q.magnitude⌉ := by
  have whole : (0 : ℚ) < q.wholePart := by exact_mod_cast some_
  have frac := fraction_nonneg q
  have mantissa : 0 < q.mantissa := by
    unfold Quantity.mantissa
    linarith
  exact Int.ceil_pos.mpr (mul_pos mantissa (scale_pos q.suffix))

/-- A suffix the server does not know leaves the whole part of the number. -/
theorem memory_unread (fits : Fits q.value) (unknown : memoryFactor q.suffix = none) :
    parseMemory q.text = roundAway q.value ↔ ⌈q.magnitude⌉ = q.wholePart := by
  rw [parseMemory_unknown unknown]
  exact unread_iff (text_scan q) (roundAway_value q) fits (ceil_pos_of_whole q)

theorem memory_known {e : List Char × Int} (fits : Fits q.value) (member : e ∈ memorySuffixes)
    (text : q.suffix.text = e.1) (scale : q.suffix.scale = e.2) (pos : 0 < e.2) :
    parseMemory q.text = roundAway q.value ↔ q.fraction = 0 := by
  have rounded : roundAway q.value = q.sign.unit * ⌈q.mantissa * e.2⌉ := by
    rw [roundAway_value, Quantity.magnitude, scale]
  rw [parseMemory_known member text]
  exact scaled_iff pos (numeral_scan q) rounded fits

theorem grown_iff (q : Quantity) (scale : 2 ≤ q.suffix.scale) :
    ⌈q.magnitude⌉ = q.wholePart ↔ q.mantissa = 0 :=
  ceil_grown_iff (fraction_nonneg q) scale

theorem shrunk_iff (q : Quantity) {c : ℚ} (scale : q.suffix.scale = 1 / c) (factor : 10 ≤ c) :
    ⌈q.magnitude⌉ = q.wholePart ↔ q.mantissa = 0 ∨ q.wholePart = 1 := by
  have share : q.magnitude = (q.wholePart + q.fraction) / c := by
    rw [Quantity.magnitude, scale, mul_one_div, Quantity.mantissa]
  rw [share]
  exact ceil_shrunk_iff (fraction_nonneg q) (fraction_lt q) factor

theorem unit_iff (q : Quantity) (scale : q.suffix.scale = 1) :
    ⌈q.magnitude⌉ = q.wholePart ↔ q.fraction = 0 := by
  have part := @ceil_part_iff q.wholePart q.fraction (fraction_nonneg q) 1 (by decide)
  rw [Int.cast_one, mul_one, mul_one] at part
  rw [Quantity.magnitude, scale, mul_one]
  exact part

theorem exponent_iff {e : Exponent} (kind : q.suffix = .exponent e) :
    ⌈q.magnitude⌉ = q.wholePart ↔ MemoryExact q := by
  have scale : q.suffix.scale = 10 ^ e.power := by rw [kind]; rfl
  rw [MemoryExact, kind]
  by_cases zero : e.power = 0
  · rw [zero, zpow_zero] at scale
    simp only [zero, if_true]
    exact unit_iff q scale
  · simp only [zero, if_false]
    have tens : ∀ k : Nat, 0 < k → (10 : ℚ) ≤ 10 ^ k := fun k pos =>
      le_self_pow₀ (by norm_num) (by omega)
    split
    · rename_i pos
      have power : (10 : ℚ) ^ e.power = 10 ^ e.power.toNat := by
        rw [← zpow_natCast, Int.toNat_of_nonneg pos.le]
      have large := tens e.power.toNat (by omega)
      exact grown_iff q (by rw [scale, power]; linarith)
    · have power : (10 : ℚ) ^ e.power = 1 / 10 ^ (-e.power).toNat := by
        rw [← zpow_natCast, Int.toNat_of_nonneg (by omega), zpow_neg, one_div, inv_inv]
      exact shrunk_iff q (scale.trans power) (tens _ (by omega))

theorem memory_iff (fits : Fits q.value) : parseMemory q.text = roundAway q.value ↔ MemoryExact q := by
  cases kind : q.suffix with
  | decimalSI s =>
    cases s with
    | nano | micro | milli =>
      rw [memory_unread fits (by rw [kind]; rfl), MemoryExact, kind]
      exact shrunk_iff q (by rw [kind]; rfl) (by norm_num)
    | one =>
      rw [memory_unread fits (by rw [kind]; rfl), MemoryExact, kind]
      exact unit_iff q (by rw [kind]; rfl)
    | kilo | peta | exa =>
      rw [memory_unread fits (by rw [kind]; rfl), MemoryExact, kind]
      exact grown_iff q (by rw [kind]; norm_num [Suffix.scale, DecimalSI.scale])
    | mega =>
      rw [@memory_known q (['M'], 1000 * 1000) fits (by decide) (by rw [kind]; rfl)
        (by rw [kind]; norm_num [Suffix.scale, DecimalSI.scale]) (by decide), MemoryExact, kind]
    | giga =>
      rw [@memory_known q (['G'], 1000 * 1000 * 1000) fits (by decide) (by rw [kind]; rfl)
        (by rw [kind]; norm_num [Suffix.scale, DecimalSI.scale]) (by decide), MemoryExact, kind]
    | tera =>
      rw [@memory_known q (['T'], 1000 * 1000 * 1000 * 1000) fits (by decide) (by rw [kind]; rfl)
        (by rw [kind]; norm_num [Suffix.scale, DecimalSI.scale]) (by decide), MemoryExact, kind]
  | binarySI s =>
    cases s with
    | kibi =>
      rw [@memory_known q (['K', 'i'], 1024) fits (by decide) (by rw [kind]; rfl)
        (by rw [kind]; norm_num [Suffix.scale, BinarySI.scale]) (by decide), MemoryExact, kind]
    | mebi =>
      rw [@memory_known q (['M', 'i'], 1024 * 1024) fits (by decide) (by rw [kind]; rfl)
        (by rw [kind]; norm_num [Suffix.scale, BinarySI.scale]) (by decide), MemoryExact, kind]
    | gibi =>
      rw [@memory_known q (['G', 'i'], 1024 * 1024 * 1024) fits (by decide) (by rw [kind]; rfl)
        (by rw [kind]; norm_num [Suffix.scale, BinarySI.scale]) (by decide), MemoryExact, kind]
    | tebi =>
      rw [@memory_known q (['T', 'i'], 1024 * 1024 * 1024 * 1024) fits (by decide) (by rw [kind]; rfl)
        (by rw [kind]; norm_num [Suffix.scale, BinarySI.scale]) (by decide), MemoryExact, kind]
    | pebi | exbi =>
      rw [memory_unread fits (by rw [kind]; rfl), MemoryExact, kind]
      exact grown_iff q (by rw [kind]; norm_num [Suffix.scale, BinarySI.scale])
  | exponent e =>
    rw [memory_unread fits (by rw [kind]; rfl)]
    exact exponent_iff kind

end Bytes

section UiBytes
variable {q : Quantity}

theorem ceil_zero_iff (q : Quantity) : 0 = ⌈q.magnitude⌉ ↔ q.mantissa = 0 := by
  have scale := scale_pos q.suffix
  constructor
  · intro none
    by_contra some_
    have pos := lt_of_le_of_ne (mantissa_nonneg q) (Ne.symm some_)
    have up : 0 < ⌈q.magnitude⌉ := Int.ceil_pos.mpr (mul_pos pos scale)
    omega
  · intro none
    rw [Quantity.magnitude, none, zero_mul, Int.ceil_zero]

theorem ui_small_iff {c : ℚ} (scale : q.suffix.scale = 1 / c) (factor : 2 ≤ c) :
    ⌈q.mantissa⌉ = ⌈q.magnitude⌉ ↔ q.mantissa ≤ 1 := by
  have back : q.mantissa = c * q.magnitude := by
    have some_ : c ≠ 0 := by linarith
    rw [Quantity.magnitude, scale]
    field_simp
  rw [back]
  exact ceil_factor_iff (magnitude_nonneg q) factor

theorem ui_large_iff (scale : 2 ≤ q.suffix.scale) : ⌈q.mantissa⌉ = ⌈q.magnitude⌉ ↔ q.magnitude ≤ 1 := by
  rw [eq_comm, Quantity.magnitude, mul_comm]
  exact ceil_factor_iff (mantissa_nonneg q) scale

theorem ui_suffix_iff (plain : ∀ e, q.suffix ≠ .exponent e) :
    ⌈q.mantissa * uiFactor q.suffix⌉ = ⌈q.magnitude⌉ ↔ UiSuffixExact q := by
  have known : uiFactor q.suffix = q.suffix.scale →
      (⌈q.mantissa * uiFactor q.suffix⌉ = ⌈q.magnitude⌉ ↔ True) := by
    intro same
    rw [same]
    exact iff_of_true rfl trivial
  have other : uiFactor q.suffix = 1 → ⌈q.mantissa * uiFactor q.suffix⌉ = ⌈q.mantissa⌉ := by
    intro same
    rw [same, mul_one]
  cases kind : q.suffix with
  | decimalSI s =>
    cases s with
    | nano | micro | milli =>
      rw [← kind, other (by rw [kind]; rfl), UiSuffixExact, kind]
      exact ui_small_iff (by rw [kind]; rfl) (by norm_num)
    | peta | exa =>
      rw [← kind, other (by rw [kind]; rfl), UiSuffixExact, kind]
      exact ui_large_iff (by rw [kind]; norm_num [Suffix.scale, DecimalSI.scale])
    | _ =>
      rw [← kind, known (by rw [kind]; norm_num [uiFactor, Suffix.scale, DecimalSI.scale]),
        UiSuffixExact, kind]
  | binarySI s =>
    cases s with
    | pebi | exbi =>
      rw [← kind, other (by rw [kind]; rfl), UiSuffixExact, kind]
      exact ui_large_iff (by rw [kind]; norm_num [Suffix.scale, BinarySI.scale])
    | _ =>
      rw [← kind, known (by rw [kind]; norm_num [uiFactor, Suffix.scale, BinarySI.scale]),
        UiSuffixExact, kind]
  | exponent e => exact absurd kind (plain e)

theorem uiFactor_pos (s : Suffix) : 0 < uiFactor s := by
  cases s with
  | decimalSI s => cases s <;> norm_num [uiFactor]
  | binarySI s => cases s <;> norm_num [uiFactor]
  | exponent e => norm_num [uiFactor]

theorem ui_memory_iff (q : Quantity) :
    roundAway (parseMemoryToBytes q.text) = roundAway q.value ↔ UiMemoryExact q := by
  rw [roundAway_value]
  by_cases plain : Plain q
  · have unit : q.sign.unit = 1 := by rw [plain.sign]; rfl
    have nonneg : 0 ≤ q.mantissa * uiFactor q.suffix :=
      mul_nonneg (mantissa_nonneg q) (uiFactor_pos q.suffix).le
    have up : roundAway (q.mantissa * uiFactor q.suffix) = ⌈q.mantissa * uiFactor q.suffix⌉ := if_pos nonneg
    rw [parseMemoryToBytes_plain plain, up, unit, one_mul, ui_suffix_iff plain.suffix]
    exact ⟨fun read => ⟨fun _ => read, fun other => absurd plain other⟩, fun both => both.1 plain⟩
  · have zero : roundAway 0 = q.sign.unit * 0 := by simp [roundAway]
    rw [parseMemoryToBytes_other plain, zero, signed_inj (sign_isSign q.sign), ceil_zero_iff]
    exact ⟨fun none => ⟨fun other => absurd other plain, fun _ => none⟩, fun both => both.2 plain⟩

end UiBytes

section Agreement

/-- All four readers give the quantity's value where it fits, the UI's after rounding. -/
structure ParsedAsQuantity (p : Platform) (q : Quantity) : Prop where
  cpu : Fits q.nanocores → parseCPU p q.text = roundAway q.nanocores ∧
    roundAway (parseCPUToNanocores q.text) = roundAway q.nanocores
  memory : Fits q.value → parseMemory q.text = roundAway q.value ∧
    roundAway (parseMemoryToBytes q.text) = roundAway q.value

structure Readable (p : Platform) (q : Quantity) : Prop where
  cpu : Fits q.nanocores → CpuExact p q ∧ UiCpuExact q
  memory : Fits q.value → MemoryExact q ∧ UiMemoryExact q

/-- The readers agree with Kubernetes exactly on the quantities they can read. -/
theorem parsed_iff (p : Platform) (q : Quantity) : ParsedAsQuantity p q ↔ Readable p q := by
  constructor
  · intro parsed
    constructor
    · intro fits
      exact ⟨(cpu_iff fits).mp (parsed.cpu fits).1, (ui_cpu_iff q).mp (parsed.cpu fits).2⟩
    · intro fits
      exact ⟨(memory_iff fits).mp (parsed.memory fits).1, (ui_memory_iff q).mp (parsed.memory fits).2⟩
  · intro readable
    constructor
    · intro fits
      exact ⟨(cpu_iff fits).mpr (readable.cpu fits).1, (ui_cpu_iff q).mpr (readable.cpu fits).2⟩
    · intro fits
      exact ⟨(memory_iff fits).mpr (readable.memory fits).1, (ui_memory_iff q).mpr (readable.memory fits).2⟩

/-- Whole cores are read right up to nine million of them. -/
theorem whole_cores_exact (p : Platform) {q : Quantity} (suffix : q.suffix = .decimalSI .one)
    (whole : q.fraction = 0) (small : q.wholePart * 10 ^ 9 < 2 ^ 53) : FloatExact p q := by
  have magnitude : q.magnitude = q.wholePart := by
    rw [Quantity.magnitude, suffix, Quantity.mantissa, whole]
    simp [Suffix.scale, DecimalSI.scale]
  have first := @nearestMagnitude_natCast q.wholePart (by omega)
  have second := nearestMagnitude_natCast small
  have product : (q.wholePart : ℚ) * 1000000000 = (q.wholePart * 10 ^ 9 : Nat) := by
    push_cast
    norm_num
  have billions : billionfold q = (q.wholePart * 10 ^ 9 : Nat) := by
    rw [billionfold, magnitude, first, product, second]
  have count : ⌈q.magnitude * 10 ^ 9⌉ = ((q.wholePart * 10 ^ 9 : Nat) : Int) := by
    have cast : q.magnitude * 10 ^ 9 = (((q.wholePart * 10 ^ 9 : Nat) : Int) : ℚ) := by
      rw [magnitude]
      push_cast
      rfl
    rw [cast, Int.ceil_intCast]
  have below : (billionfold q : ℚ) < 0x8000000000000000 := by
    rw [billions]
    exact_mod_cast lt_trans small (by norm_num)
  rw [FloatExact, if_pos below, count, billions]
  constructor
  · push_cast
    exact le_refl _
  · push_cast
    linarith

end Agreement

section Example

theorem one_digits : ∀ c ∈ ['1'], c.isDigit = true := List.all_iff_forall_prop.mp (by decide)
theorem five_digits : ∀ c ∈ ['5'], c.isDigit = true := List.all_iff_forall_prop.mp (by decide)
theorem pointed_true : true = false → ['5'] = [] := by decide
theorem one_some : ['1'] ≠ [] ∨ ['5'] ≠ [] := by decide

/-- 1.5Gi. -/
def gibi15 : Quantity where
  sign := .none
  whole := ⟨['1'], one_digits⟩
  point := true
  frac := ⟨['5'], five_digits⟩
  suffix := .binarySI .gibi
  pointed := pointed_true
  some_ := one_some

theorem platform_truncates (f : ℚ) (_ : -0x8000000000000000 ≤ truncate f)
    (_ : truncate f < 0x8000000000000000) : truncate f = truncate f := rfl

def truncating : Platform := ⟨truncate, platform_truncates⟩

theorem one_core_exact : FloatExact truncating
    ⟨.none, ⟨['1'], one_digits⟩, false, ⟨[], nofun⟩, .decimalSI .one, fun _ => rfl, .inl (by decide)⟩ :=
  whole_cores_exact truncating rfl (by decide +kernel) (by decide)

/-- The server takes 1.5Gi for 1Gi. -/
theorem fraction_dropped : gibi15.text = "1.5Gi".toList ∧ parseMemory gibi15.text = 1073741824 ∧
    roundAway gibi15.value = 1610612736 ∧ ¬ ParsedAsQuantity truncating gibi15 := by
  have read : parseMemory gibi15.text = 1073741824 := by decide
  have one : decimal ['1'] = 1 := by decide
  have five : decimal ['5'] = 5 := by decide
  have value : gibi15.value = ((1610612736 : Int) : ℚ) := by
    norm_num [one, five, Quantity.value, Quantity.magnitude, Quantity.mantissa, Quantity.wholePart,
      Quantity.fraction, gibi15, Sign.unit, Suffix.scale, BinarySI.scale]
  have rounded : roundAway gibi15.value = 1610612736 := by
    rw [value]
    norm_num [roundAway]
  refine ⟨by decide, read, rounded, fun parsed => ?_⟩
  have fits : Fits gibi15.value := by
    rw [Fits, rounded]
    decide
  have same := (parsed.memory fits).1
  rw [read, rounded] at same
  exact absurd same (by decide)

end Example

end QuantityExact
