import Mathlib.Algebra.Order.Floor.Semifield
import Radar.K8s.QuantityParsers

/- internal/prometheus/rightsizing.go: the request recommended for a container, by the P95 of its usage. The numbers are
   exact: a float64 is a rational, and no conversion to int64 overflows. -/
namespace Rightsizing
open Binary64 Quantities GoText
variable {v : ℚ}

section Model

inductive Tone where
  | ok | info | warning | alert | critical
  deriving DecidableEq

structure RightsizingRow where
  container : String
  resource : String
  currentRequest : Option String
  currentLimit : Option String
  p95 : Option String
  recommendedReq : Option String
  tone : Tone
  message : String

inductive ResKind where
  | cpu
  | memory
  | other (name : String) (apart : name ∉ ["cpu", "memory"])

def ResKind.text : ResKind → String
  | cpu => "cpu"
  | memory => "memory"
  | other name _ => name

def headroomCPU : ℚ := 115 / 100

def headroomMemory : ℚ := 110 / 100

def mebi : ℚ := 1024 * 1024

def gibi : ℚ := 1024 * mebi

/-- MilliValue and Value round up. -/
def quantityToFloat (q : ℚ) : ResKind → ℚ
  | .cpu => roundAway (q * 1000) / 1000
  | .memory => roundAway q
  | .other _ _ => 0

/-- %.0f and %.1f of numbers that are not negative. -/
def format0 (v : ℚ) : String := toString (roundHalfEven v).toNat

def format1 (v : ℚ) : String :=
  toString ((roundHalfEven (v * 10)).toNat / 10) ++ "." ++ toString ((roundHalfEven (v * 10)).toNat % 10)

/-- The value in millicores, to the nearest ten. -/
def millis (v : ℚ) : Nat := max ((truncate (v * 1000 + 5)).toNat / 10 * 10) 10

def mebibytes (v : ℚ) : Nat := max ((truncate (v / mebi + 15)).toNat / 16 * 16) 16

def formatRightsizingValue (v : ℚ) : ResKind → String
  | .cpu =>
    if v < 1 / 1000 then "1m"
    else if millis v < 1000 then toString (millis v) ++ "m"
    else if millis v % 1000 = 0 then toString (millis v / 1000)
    else format1 (millis v / 1000)
  | .memory =>
    if gibi ≤ v then format1 (v / gibi) ++ "Gi"
    else toString (mebibytes v) ++ "Mi"
  | .other _ _ => ""

def recommendRequest (p95 : ℚ) (resKind : ResKind) : String :=
  formatRightsizingValue (p95 * match resKind with | .memory => headroomMemory | _ => headroomCPU) resKind

/-- The tone and the message, and the recommendation where there is one. -/
def recommend (row : RightsizingRow) (tone : Tone) (message : String) (p95 : ℚ) (resKind : ResKind) : RightsizingRow :=
  { row with
    tone := tone
    message := message
    recommendedReq := if recommendRequest p95 resKind ≠ "" then some (recommendRequest p95 resKind) else row.recommendedReq }

def overThreshold : ResKind → ℚ
  | .cpu => 8
  | _ => 5

/-- The part of the classification that compares the request with the usage. -/
def classifyRatio (row : RightsizingRow) (p95 reqVal : ℚ) (resKind : ResKind) : RightsizingRow :=
  let ratio := reqVal / p95
  if ratio < 1 then
    recommend row .warning ("P95 usage exceeds request (" ++ format0 ((1 / ratio - 1) * 100) ++ "% over)") p95 resKind
  else if ratio ≤ 3 then { row with tone := .ok, message := "Well-sized" }
  else if overThreshold resKind < ratio then
    recommend row .info ("Over-provisioned by " ++ format1 ratio ++ "x — could reduce") p95 resKind
  else { row with tone := .ok, message := format1 ratio ++ "x headroom" }

/-- A limit of memory that the P95 comes near. -/
def nearLimit (p95 : ℚ) (lim : Option ℚ) : ResKind → Bool
  | .memory => lim.any fun l => 0 < quantityToFloat l .memory && quantityToFloat l .memory * (95 / 100) ≤ p95
  | _ => false

def throttled (p95 : ℚ) (lim : Option ℚ) : ResKind → Bool
  | .cpu => lim.any fun l => 0 < quantityToFloat l .cpu && quantityToFloat l .cpu < p95
  | _ => false

def classifyRightsizing (row : RightsizingRow) (p95 : ℚ) (req lim : Option ℚ) (resKind : ResKind) : RightsizingRow :=
  if nearLimit p95 lim resKind then
    recommend row .critical "P95 near memory limit — active OOM risk" p95 resKind
  else match req with
    | none =>
      recommend row .warning ("No " ++ resKind.text ++ " request set — consider setting one based on observed usage") p95 resKind
    | some r =>
      if quantityToFloat r resKind ≤ 0 then row
      else if p95 ≤ 0 then { row with tone := .ok, message := "Idle — no usage in window" }
      else if throttled p95 lim resKind then
        recommend row .alert "P95 exceeds CPU limit — throttling likely" p95 resKind
      else classifyRatio row p95 (quantityToFloat r resKind) resKind

/-- The row as computeRightsizingRow hands it beyond. -/
def freshRow (container : String) (resKind : ResKind) (currentRequest currentLimit p95 : Option String) : RightsizingRow :=
  ⟨container, resKind.text, currentRequest, currentLimit, p95, none, .ok, ""⟩

end Model

section Reading

/-- The suffixes of quantities with their scales. -/
def suffixes : List (List Char × ℚ) :=
  ([.nano, .micro, .milli, .one, .kilo, .mega, .giga, .tera, .peta, .exa].map fun s : DecimalSI => (s.text, s.scale)) ++
  [.kibi, .mebi, .gibi, .tebi, .pebi, .exbi].map fun s : BinarySI => (s.text, s.scale)

/-- What a quantity that begins with a digit denotes, those with an exponent apart. -/
def readQuantity (text : String) : Option ℚ := let whole := text.toList.takeWhile Char.isDigit
  if whole = [] then none
  else match text.toList.dropWhile Char.isDigit with
  | '.' :: rest =>
    let frac := rest.takeWhile Char.isDigit
    (suffixes.lookup (rest.dropWhile Char.isDigit)).map fun scale => (decimal whole + decimal frac / 10 ^ frac.length) * scale
  | rest => (suffixes.lookup rest).map fun scale => decimal whole * scale

def digitsOf (n : Nat) : Digits where
  chars := (toString n).toList
  digits := by
    rw [show (toString n).toList = Nat.toDigits 10 n from Nat.toList_repr]
    exact fun c member => Nat.isDigit_of_mem_toDigits (by decide) (by decide) member

theorem digits_some (n : Nat) : (digitsOf n).chars ≠ [] := by
  have digits : (digitsOf n).chars = Nat.toDigits 10 n := Nat.toList_repr
  rw [digits]
  exact Nat.toDigits_ne_nil

theorem decimal_digits (n : Nat) : decimal (toString n).toList = n := by
  have value := decimalValue_toString n
  unfold decimalValue at value
  split at value
  · exact Option.some.inj value
  · cases value

theorem read_whole (n : Nat) {suffix : String} {scale : ℚ} (known : suffixes.lookup suffix.toList = some scale)
    (letters : ∀ c ∈ suffix.toList.head?, c.isDigit = false ∧ c ≠ '.') :
    readQuantity (toString n ++ suffix) = some (n * scale) := by
  have taken := QuantityParsers.digits_taken (digitsOf n) fun c first => (letters c first).1
  have chars : (toString n ++ suffix).toList = (digitsOf n).chars ++ suffix.toList := String.toList_append
  rw [readQuantity, chars, taken.1, taken.2, if_neg (digits_some n)]
  split
  · rename_i rest text
    exact absurd rfl (letters '.' (by rw [text]; rfl)).2
  · rw [known, Option.map_some]
    exact congrArg (fun m : Nat => some ((m : ℚ) * scale)) (decimal_digits n)

theorem read_tenths (t : Nat) {suffix : String} {scale : ℚ} (known : suffixes.lookup suffix.toList = some scale)
    (letters : ∀ c ∈ suffix.toList.head?, c.isDigit = false) :
    readQuantity (toString (t / 10) ++ "." ++ toString (t % 10) ++ suffix) = some (t / 10 * scale) := by
  have chars : (toString (t / 10) ++ "." ++ toString (t % 10) ++ suffix).toList =
      (digitsOf (t / 10)).chars ++ '.' :: ((digitsOf (t % 10)).chars ++ suffix.toList) := by
    simp [digitsOf]
  have taken := @QuantityParsers.digits_taken (digitsOf (t / 10)) ('.' :: ((digitsOf (t % 10)).chars ++ suffix.toList))
    fun c first => by cases first; decide
  have taken' := QuantityParsers.digits_taken (digitsOf (t % 10)) letters
  have digits : ∀ d < 10, (digitsOf d).chars.length = 1 := by decide
  have single : (digitsOf (t % 10)).chars.length = 1 := digits _ (Nat.mod_lt t (by decide))
  rw [readQuantity, chars, taken.1, taken.2, if_neg (digits_some _)]
  simp only [taken'.1, taken'.2, known, Option.map_some, single, pow_one]
  have whole : decimal (digitsOf (t / 10)).chars = t / 10 := decimal_digits _
  have part : decimal (digitsOf (t % 10)).chars = t % 10 := decimal_digits _
  have split : (t : ℚ) = 10 * (t / 10 : Nat) + (t % 10 : Nat) := by exact_mod_cast (Nat.div_add_mod t 10).symm
  rw [whole, part, split]
  congr 2
  field_simp

end Reading

section Values

def cpuValue (v : ℚ) : ℚ := if v < 1 / 1000 then 1 / 1000
  else if millis v < 1000 then millis v / 1000
  else roundHalfEven (millis v / 1000 * 10) / 10

def memoryValue (v : ℚ) : ℚ :=
  if gibi ≤ v then roundHalfEven (v / gibi * 10) / 10 * 2 ^ 30 else mebibytes v * 2 ^ 20

theorem cast_tenths (nonneg : 0 ≤ v) : ((roundHalfEven (v * 10)).toNat : ℚ) = roundHalfEven (v * 10) := by
  have positive := roundHalfEven_nonneg (mul_nonneg nonneg (by norm_num : (0 : ℚ) ≤ 10))
  exact_mod_cast Int.toNat_of_nonneg positive

theorem read_cpu (v : ℚ) : readQuantity (formatRightsizingValue v .cpu) = some (cpuValue v) := by
  have milli : suffixes.lookup "m".toList = some (1 / 10 ^ 3) := rfl
  have one : suffixes.lookup "".toList = some 1 := rfl
  unfold formatRightsizingValue cpuValue
  simp only
  by_cases tiny : v < 1 / 1000
  · rw [if_pos tiny, if_pos tiny]
    have text : "1m" = toString 1 ++ "m" := by decide
    rw [text, read_whole 1 milli (fun c first => by cases first; decide)]
    norm_num
  · rw [if_neg tiny, if_neg tiny]
    by_cases small : millis v < 1000
    · rw [if_pos small, if_pos small, read_whole _ milli (fun c first => by cases first; decide)]
      norm_num
      ring
    · rw [if_neg small, if_neg small]
      by_cases whole : millis v % 1000 = 0
      · have cores : (millis v : ℚ) = 1000 * (millis v / 1000 : Nat) := by
          exact_mod_cast (Nat.mul_div_cancel' (Nat.dvd_of_mod_eq_zero whole)).symm
        rw [if_pos whole, ← String.append_empty (s := toString (millis v / 1000)), read_whole _ one (fun c first => by cases first), cores]
        generalize millis v / 1000 = c
        have tens : 1000 * (c : ℚ) / 1000 * 10 = ((10 * c : Int) : ℚ) := by
          push_cast
          ring
        rw [tens, roundHalfEven_int]
        push_cast
        congr 1
        ring
      · rw [if_neg whole, format1, ← String.append_empty (s := _ ++ toString (_ % 10)), read_tenths _ one (fun c first => by cases first),
          cast_tenths (by positivity), mul_one]

theorem read_memory (v : ℚ) : readQuantity (formatRightsizingValue v .memory) = some (memoryValue v) := by
  have gi : suffixes.lookup "Gi".toList = some (2 ^ 30) := rfl
  have mi : suffixes.lookup "Mi".toList = some (2 ^ 20) := rfl
  unfold formatRightsizingValue memoryValue
  simp only
  by_cases large : gibi ≤ v
  · have nonneg : 0 ≤ v / gibi := by
      unfold gibi mebi at *
      exact div_nonneg (by linarith) (by norm_num)
    rw [if_pos large, if_pos large, format1, read_tenths _ gi (fun c first => by cases first; decide), cast_tenths nonneg]
  · rw [if_neg large, if_neg large, read_whole _ mi (fun c first => by cases first; decide)]

/-- A number cut to a multiple of n. -/
theorem floor_steps {x : ℚ} (nonneg : 0 ≤ x) {n : Nat} (some_ : 0 < n) :
    ((((truncate x).toNat / n : Nat) : ℚ) * n ≤ x) ∧ x < (((truncate x).toNat / n : Nat) + 1 : ℚ) * n := by
  have unit : (0 : ℚ) < n := Nat.cast_pos.mpr some_
  have same : (truncate x).toNat / n = ⌊x / n⌋₊ := by rw [truncate, if_pos nonneg, Int.floor_toNat, Nat.floor_div_natCast]
  rw [same, ← le_div_iff₀ unit, ← div_lt_iff₀ unit]
  exact ⟨Nat.floor_le (div_nonneg nonneg unit.le), Nat.lt_floor_add_one _⟩

/-- Steps of ten millicores. -/
theorem millis_steps (nonneg : 0 ≤ v) :
    ∃ k : Nat, millis v = max (k * 10) 10 ∧ (10 * k : ℚ) ≤ v * 1000 + 5 ∧ v * 1000 + 5 < 10 * k + 10 := by
  obtain ⟨low, high⟩ := floor_steps (x := v * 1000 + 5) (by linarith) (by decide : 0 < 10)
  refine ⟨_, rfl, ?_, ?_⟩ <;> push_cast at * <;> linarith

/-- Steps of sixteen mebibytes. -/
theorem mebibytes_steps (nonneg : 0 ≤ v) :
    ∃ k : Nat, mebibytes v = max (k * 16) 16 ∧ (16 * k : ℚ) * mebi ≤ v + 15 * mebi ∧ v + 15 * mebi < (16 * k + 16) * mebi := by
  have unit : 0 < mebi := by norm_num [mebi]
  have scaled : v + 15 * mebi = (v / mebi + 15) * mebi := by field_simp
  obtain ⟨low, high⟩ := floor_steps (x := v / mebi + 15) (by positivity) (by decide : 0 < 16)
  refine ⟨_, rfl, ?_⟩
  rw [scaled, mul_le_mul_iff_left₀ unit, mul_lt_mul_iff_left₀ unit]
  constructor <;> push_cast at * <;> linarith

/-- The P95s that rounding to the nearest ten takes below themselves, headroom and all. -/
def RoundedBelow (p95 : ℚ) : Prop :=
  (10 < p95 * 1000 ∧ p95 * 1150 < 15) ∨ (20 < p95 * 1000 ∧ p95 * 1150 < 25) ∨ (30 < p95 * 1000 ∧ p95 * 1150 < 35)

/-- A millicore, ten of them, or a step, which from a core on is shown in tenths of one. -/
theorem cpu_value_cases (p95 : ℚ) : (p95 * 1150 < 1 ∧ cpuValue (p95 * headroomCPU) = 1 / 1000) ∨
    (1 ≤ p95 * 1150 ∧ p95 * 1150 < 15 ∧ cpuValue (p95 * headroomCPU) = 10 / 1000) ∨
    ∃ k : Nat, 2 ≤ k ∧ (10 * k : ℚ) ≤ p95 * 1150 + 5 ∧ p95 * 1150 + 5 < 10 * k + 10 ∧
      (cpuValue (p95 * headroomCPU) = k / 100 ∨ (100 ≤ k ∧ (k / 100 - 1 / 20 : ℚ) ≤ cpuValue (p95 * headroomCPU) ∧
        cpuValue (p95 * headroomCPU) ≤ k / 100 + 1 / 20)) := by
  have scaled : p95 * headroomCPU * 1000 = p95 * 1150 := by
    unfold headroomCPU
    ring
  unfold cpuValue
  by_cases tiny : p95 * headroomCPU < 1 / 1000
  · exact .inl ⟨by linarith, if_pos tiny⟩
  · obtain ⟨k, steps, low, high⟩ := millis_steps (v := p95 * headroomCPU) (by linarith)
    rw [scaled] at low high
    rw [if_neg tiny]
    by_cases first : k ≤ 1
    · have ten : millis (p95 * headroomCPU) = 10 := by omega
      have bound : (k : ℚ) ≤ 1 := by exact_mod_cast first
      exact .inr (.inl ⟨by linarith, by linarith, by rw [ten, if_pos (by decide), Nat.cast_ofNat]⟩)
    · have tens : (millis (p95 * headroomCPU) : ℚ) / 1000 = k / 100 := by
        rw [steps, max_eq_left (by omega)]
        push_cast
        ring
      refine .inr (.inr ⟨k, by omega, low, high, ?_⟩)
      rw [tens]
      split
      · exact .inl rfl
      · have near := roundHalfEven_near ((k / 100 : ℚ) * 10)
        exact .inr ⟨by omega, by linarith, by linarith⟩

theorem cpu_enough (p95 : ℚ) : p95 ≤ cpuValue (p95 * headroomCPU) ↔ ¬ RoundedBelow p95 := by
  unfold RoundedBelow
  rcases cpu_value_cases p95 with ⟨tiny, value⟩ | ⟨-, small, value⟩ | ⟨k, more, low, high, value⟩
  · refine iff_of_true (by linarith) ?_
    rintro (⟨below, -⟩ | ⟨below, -⟩ | ⟨below, -⟩) <;> linarith
  · rw [value]
    constructor
    · rintro enough (⟨below, -⟩ | ⟨below, -⟩ | ⟨below, -⟩) <;> linarith
    · intro fine
      by_contra less
      exact fine (.inl ⟨by linarith, small⟩)
  · have cases_ : k = 2 ∨ k = 3 ∨ 4 ≤ k := by omega
    rcases cases_ with rfl | rfl | more
    · rw [value.resolve_right (by simp)]
      norm_num at low high ⊢
      constructor
      · intro enough
        refine ⟨fun _ => ?_, fun _ => ?_, fun _ => ?_⟩ <;> linarith
      · rintro ⟨-, fine, -⟩
        by_contra less
        linarith [fine (by linarith)]
    · rw [value.resolve_right (by simp)]
      norm_num at low high ⊢
      constructor
      · intro enough
        refine ⟨fun _ => ?_, fun _ => ?_, fun _ => ?_⟩ <;> linarith
      · rintro ⟨-, -, fine⟩
        by_contra less
        linarith [fine (by linarith)]
    · have bound : (4 : ℚ) ≤ k := by exact_mod_cast more
      refine iff_of_true ?_ ?_
      · rcases value with value | ⟨large, near, -⟩
        · linarith
        · have hundred : (100 : ℚ) ≤ k := by exact_mod_cast large
          linarith
      · rintro (⟨-, above⟩ | ⟨-, above⟩ | ⟨-, above⟩) <;> linarith

/-- A request of the size of the smallest recommendations, or below. -/
def FlooredCPU (p95 r : ℚ) : Prop := if p95 * 1150 < 1 then r * 1000 ≤ 1 else p95 * 1150 < 15 ∧ r * 1000 ≤ 10

theorem cpu_smaller {p95 r : ℚ} (used : 0 < p95) (beyond : 8 * p95 < quantityToFloat r .cpu) :
    cpuValue (p95 * headroomCPU) < r ↔ ¬ FlooredCPU p95 r := by
  have request := roundAway_lt (r * 1000)
  rw [quantityToFloat, lt_div_iff₀ (by norm_num)] at beyond
  unfold FlooredCPU
  rcases cpu_value_cases p95 with ⟨tiny, value⟩ | ⟨above, small, value⟩ | ⟨k, more, low, high, value⟩
  · rw [value, if_pos tiny, not_le]
    constructor <;> intro less <;> linarith
  · rw [value, if_neg (not_lt.mpr above), not_and, not_le]
    exact ⟨fun less _ => by linarith, fun less => by linarith [less small]⟩
  · have bound : (2 : ℚ) ≤ k := by exact_mod_cast more
    have above : ¬ p95 * 1150 < 1 := by linarith
    rw [if_neg above]
    refine iff_of_true ?_ fun both => by linarith [both.1]
    rcases value with value | ⟨large, -, near⟩
    · linarith
    · have hundred : (100 : ℚ) ≤ k := by exact_mod_cast large
      linarith

theorem memory_enough (p95 : ℚ) : p95 ≤ memoryValue (p95 * headroomMemory) := by
  unfold memoryValue headroomMemory
  by_cases large : gibi ≤ p95 * (110 / 100)
  · have near := (roundHalfEven_near (p95 * (110 / 100) / gibi * 10)).1
    rw [if_pos large]
    unfold gibi mebi at *
    linarith
  · rw [if_neg large]
    by_cases negative : p95 < 0
    · exact negative.le.trans (by positivity)
    · obtain ⟨k, steps, low, high⟩ := mebibytes_steps (v := p95 * (110 / 100)) (by linarith)
      have least : (16 : ℚ) ≤ mebibytes (p95 * (110 / 100)) := by exact_mod_cast (by omega : 16 ≤ mebibytes (p95 * (110 / 100)))
      have size : (16 * k : ℚ) ≤ mebibytes (p95 * (110 / 100)) := by
        exact_mod_cast (by omega : 16 * k ≤ mebibytes (p95 * (110 / 100)))
      unfold mebi at *
      linarith

def FlooredMemory (p95 r : ℚ) : Prop := p95 * 11 < 170 * mebi ∧ r ≤ 16 * mebi

theorem memory_smaller {p95 r : ℚ} (used : 0 < p95) (beyond : 5 * p95 < quantityToFloat r .memory) :
    memoryValue (p95 * headroomMemory) < r ↔ ¬ FlooredMemory p95 r := by
  have request := roundAway_lt r
  rw [quantityToFloat] at beyond
  unfold memoryValue FlooredMemory headroomMemory
  by_cases large : gibi ≤ p95 * (110 / 100)
  · have near := (roundHalfEven_near (p95 * (110 / 100) / gibi * 10)).2
    rw [if_pos large]
    unfold gibi mebi at *
    have free : ¬ (p95 * 11 < 170 * (1024 * 1024) ∧ r ≤ 16 * (1024 * 1024)) := fun both => by linarith [both.1]
    rw [iff_true_right free]
    linarith
  · rw [if_neg large]
    obtain ⟨k, steps, low, high⟩ := mebibytes_steps (v := p95 * (110 / 100)) (by linarith)
    by_cases first : k ≤ 1
    · have sixteen : mebibytes (p95 * (110 / 100)) = 16 := by omega
      have bound : (k : ℚ) ≤ 1 := by exact_mod_cast first
      have unit : ((16 : Nat) : ℚ) * 2 ^ 20 = 16 * mebi := by norm_num [mebi]
      rw [sixteen, unit, not_and, not_le]
      refine ⟨fun less _ => less, fun less => less ?_⟩
      unfold mebi at *
      linarith
    · have size : (mebibytes (p95 * (110 / 100)) : ℚ) = 16 * k := by
        rw [steps, max_eq_left (by omega)]
        push_cast
        ring
      have bound : (2 : ℚ) ≤ k := by exact_mod_cast (by omega : 2 ≤ k)
      unfold mebi at *
      have free : ¬ (p95 * 11 < 170 * (1024 * 1024) ∧ r ≤ 16 * (1024 * 1024)) := fun both => by linarith [both.1]
      rw [iff_true_right free, size]
      linarith

end Values

section Soundness

/-- What the row's message begins with. -/
def Tells (row : RightsizingRow) (phrase : String) : Prop := hasPrefix row.message phrase = true

structure Sound (p95 : ℚ) (req : Option ℚ) (row : RightsizingRow) : Prop where
  enough : ∀ text ∈ row.recommendedReq, ∃ v, readQuantity text = some v ∧ p95 ≤ v
  raised : Tells row "P95 usage exceeds request" →
    ∀ text ∈ row.recommendedReq, ∃ v, readQuantity text = some v ∧ ∀ r ∈ req, r < v
  lowered : Tells row "Over-provisioned" →
    ∀ text ∈ row.recommendedReq, ∃ v, readQuantity text = some v ∧ ∀ r ∈ req, v < r

/-- The usage is far below the request, and no limit is close. -/
def OverProvisioned (resKind : ResKind) (p95 r : ℚ) (lim : Option ℚ) : Prop :=
  nearLimit p95 lim resKind = false ∧ throttled p95 lim resKind = false ∧ 0 < p95 ∧
    overThreshold resKind * p95 < quantityToFloat r resKind

/-- The inputs for which something is recommended. -/
def Recommends (resKind : ResKind) (p95 : ℚ) (req lim : Option ℚ) : Prop :=
  nearLimit p95 lim resKind = true ∨ ∀ r ∈ req, 0 < p95 ∧ 0 < quantityToFloat r resKind ∧
    (throttled p95 lim resKind = true ∨ quantityToFloat r resKind < p95 ∨ overThreshold resKind * p95 < quantityToFloat r resKind)

/-- No recommended step below the usage, and no smallest step above the request it is to reduce. -/
def Clear (p95 : ℚ) (req lim : Option ℚ) : ResKind → Prop
  | .cpu => (Recommends .cpu p95 req lim → ¬ RoundedBelow p95) ∧ ∀ r ∈ req, OverProvisioned .cpu p95 r lim → ¬ FlooredCPU p95 r
  | .memory => ∀ r ∈ req, OverProvisioned .memory p95 r lim → ¬ FlooredMemory p95 r
  | .other _ _ => True

section Classes
variable {row : RightsizingRow} {p95 value : ℚ} {req lim : Option ℚ} {resKind : ResKind}

theorem sound_none (none_ : row.recommendedReq = none) : Sound p95 req row := by
  constructor <;> simp [none_]

theorem recommend_sound_iff (read : readQuantity (recommendRequest p95 resKind) = some value) (tone : Tone) (message : String) :
    Sound p95 req (recommend row tone message p95 resKind) ↔ p95 ≤ value ∧
      (hasPrefix message "P95 usage exceeds request" = true → ∀ r ∈ req, r < value) ∧
      (hasPrefix message "Over-provisioned" = true → ∀ r ∈ req, value < r) := by
  have some_ : recommendRequest p95 resKind ≠ "" := by
    intro empty
    rw [empty] at read
    cases read
  have given : (recommend row tone message p95 resKind).recommendedReq = some (recommendRequest p95 resKind) := if_pos some_
  constructor
  · intro sound
    have known : ∀ {P : ℚ → Prop}, (∀ text ∈ (recommend row tone message p95 resKind).recommendedReq,
        ∃ v, readQuantity text = some v ∧ P v) → P value := by
      intro P all
      obtain ⟨v, text, holds⟩ := all _ given
      rw [read] at text
      exact Option.some.inj text ▸ holds
    exact ⟨known sound.enough, fun tells => known (sound.raised tells), fun tells => known (sound.lowered tells)⟩
  · rintro ⟨enough, raised, lowered⟩
    constructor
    · intro text member
      cases given.symm.trans member
      exact ⟨value, read, enough⟩
    · intro tells text member
      cases given.symm.trans member
      exact ⟨value, read, raised tells⟩
    · intro tells text member
      cases given.symm.trans member
      exact ⟨value, read, lowered tells⟩

theorem tells_exceeds (x : String) :
    hasPrefix ("P95 usage exceeds request (" ++ x ++ "% over)") "P95 usage exceeds request" = true ∧
    hasPrefix ("P95 usage exceeds request (" ++ x ++ "% over)") "Over-provisioned" = false := by
  rw [hasPrefix, hasPrefix, String.toList_append, String.toList_append]
  exact ⟨rfl, rfl⟩

theorem tells_over (x : String) :
    hasPrefix ("Over-provisioned by " ++ x ++ "x — could reduce") "P95 usage exceeds request" = false ∧
    hasPrefix ("Over-provisioned by " ++ x ++ "x — could reduce") "Over-provisioned" = true := by
  rw [hasPrefix, hasPrefix, String.toList_append, String.toList_append]
  exact ⟨rfl, rfl⟩

theorem tells_unset (x : String) :
    hasPrefix ("No " ++ x ++ " request set — consider setting one based on observed usage") "P95 usage exceeds request" = false ∧
    hasPrefix ("No " ++ x ++ " request set — consider setting one based on observed usage") "Over-provisioned" = false := by
  rw [hasPrefix, hasPrefix, String.toList_append, String.toList_append]
  exact ⟨rfl, rfl⟩

theorem threshold_large (resKind : ResKind) : 5 ≤ overThreshold resKind := by
  cases resKind <;> norm_num [overThreshold]

theorem ratio_sound_iff {r : ℚ} (none_ : row.recommendedReq = none)
    (read : readQuantity (recommendRequest p95 resKind) = some value) (up : r ≤ quantityToFloat r resKind) (used : 0 < p95) :
    Sound p95 (some r) (classifyRatio row p95 (quantityToFloat r resKind) resKind) ↔
      (quantityToFloat r resKind < p95 ∨ overThreshold resKind * p95 < quantityToFloat r resKind → p95 ≤ value) ∧
      (overThreshold resKind * p95 < quantityToFloat r resKind → value < r) := by
  have threshold := threshold_large resKind
  have scaled : 5 * p95 ≤ overThreshold resKind * p95 := mul_le_mul_of_nonneg_right threshold used.le
  unfold classifyRatio
  simp only [div_lt_one used, lt_div_iff₀ used, div_le_iff₀ used]
  by_cases exceeds : quantityToFloat r resKind < p95
  · have under : ¬ overThreshold resKind * p95 < quantityToFloat r resKind := by linarith
    have tells := tells_exceeds (format0 ((1 / (quantityToFloat r resKind / p95) - 1) * 100))
    rw [if_pos exceeds, recommend_sound_iff read, tells.1, tells.2]
    simp only [exceeds, under, Option.mem_some_iff, forall_eq', true_implies, true_or, false_implies, Bool.false_eq_true, and_true]
    exact ⟨fun sound => sound.1, fun enough => ⟨enough, by linarith⟩⟩
  · rw [if_neg exceeds]
    by_cases well : quantityToFloat r resKind ≤ 3 * p95
    · have under : ¬ overThreshold resKind * p95 < quantityToFloat r resKind := by linarith
      rw [if_pos well]
      simp [exceeds, under, @sound_none { row with tone := .ok, message := "Well-sized" } _ _ none_]
    · rw [if_neg well]
      by_cases beyond : overThreshold resKind * p95 < quantityToFloat r resKind
      · have tells := tells_over (format1 (quantityToFloat r resKind / p95))
        rw [if_pos beyond, recommend_sound_iff read, tells.1, tells.2]
        simp [beyond]
      · rw [if_neg beyond]
        simp [exceeds, beyond, @sound_none
          { row with tone := .ok, message := format1 (quantityToFloat r resKind / p95) ++ "x headroom" } _ _ none_]

/-- The classification for a kind whose recommendation has a value: at least the P95 wherever something is recommended,
    and below the request where it is to be reduced. -/
theorem classify_sound_iff (none_ : row.recommendedReq = none) (read : readQuantity (recommendRequest p95 resKind) = some value)
    (up : ∀ r, 0 < quantityToFloat r resKind → r ≤ quantityToFloat r resKind) :
    Sound p95 req (classifyRightsizing row p95 req lim resKind) ↔ (Recommends resKind p95 req lim → p95 ≤ value) ∧
      ∀ r ∈ req, OverProvisioned resKind p95 r lim → value < r := by
  unfold classifyRightsizing Recommends OverProvisioned
  by_cases near : nearLimit p95 lim resKind = true
  · have silent : hasPrefix "P95 near memory limit — active OOM risk" "P95 usage exceeds request" = false ∧
        hasPrefix "P95 near memory limit — active OOM risk" "Over-provisioned" = false := ⟨rfl, rfl⟩
    rw [if_pos near, recommend_sound_iff read, silent.1, silent.2]
    simp [near]
  · rw [if_neg near]
    cases req with
    | none =>
      have silent := tells_unset resKind.text
      simp only [recommend_sound_iff read, silent.1, silent.2]
      simp
    | some r =>
      simp only [near, Option.mem_some_iff, forall_eq', Bool.false_eq_true, false_or, true_and]
      by_cases unset : quantityToFloat r resKind ≤ 0
      · rw [if_pos unset]
        have scaled := threshold_large resKind
        refine iff_of_true (sound_none none_) ⟨fun recommends => absurd recommends.2.1 unset.not_gt, ?_⟩
        rintro ⟨-, used, beyond⟩
        have positive := mul_pos (by linarith : 0 < overThreshold resKind) used
        linarith
      · rw [if_neg unset]
        by_cases idle : p95 ≤ 0
        · rw [if_pos idle]
          simp [idle.not_gt, @sound_none { row with tone := .ok, message := "Idle — no usage in window" } _ _ none_]
        · rw [if_neg idle]
          by_cases limited : throttled p95 lim resKind = true
          · have silent : hasPrefix "P95 exceeds CPU limit — throttling likely" "P95 usage exceeds request" = false ∧
                hasPrefix "P95 exceeds CPU limit — throttling likely" "Over-provisioned" = false := ⟨rfl, rfl⟩
            rw [if_pos limited, recommend_sound_iff read, silent.1, silent.2]
            simp [limited, not_le.mp unset, not_le.mp idle]
          · rw [if_neg limited, ratio_sound_iff none_ read (up r (not_le.mp unset)) (not_le.mp idle)]
            simp [limited, not_le.mp unset, not_le.mp idle]

theorem other_unset {name : String} {apart : name ∉ ["cpu", "memory"]} (none_ : row.recommendedReq = none) :
    (classifyRightsizing row p95 req lim (.other name apart)).recommendedReq = none := by
  unfold classifyRightsizing
  cases req with
  | none => exact none_
  | some r => exact none_

theorem le_roundAway (positive : (0 : ℚ) < roundAway v) : v ≤ roundAway v := by
  by_cases nonneg : 0 ≤ v
  · rw [roundAway, if_pos nonneg]
    exact Int.le_ceil v
  · linarith

theorem milli_up (r : ℚ) (positive : 0 < quantityToFloat r .cpu) : r ≤ quantityToFloat r .cpu := by
  rw [quantityToFloat] at positive ⊢
  have above := le_roundAway (v := r * 1000) (by linarith)
  linarith

/-- Exactly the recommendations that are clear of the two defects of rounding are sound. -/
theorem recommendations_sound_iff (container : String) (resKind : ResKind) (currentRequest currentLimit shown : Option String)
    (p95 : ℚ) (req lim : Option ℚ) :
    Sound p95 req (classifyRightsizing (freshRow container resKind currentRequest currentLimit shown) p95 req lim resKind) ↔
      Clear p95 req lim resKind := by
  cases resKind with
  | cpu =>
    rw [classify_sound_iff rfl (read_cpu _) milli_up, cpu_enough]
    refine and_congr Iff.rfl (forall₂_congr fun r _ => forall_congr' fun beyond => ?_)
    exact cpu_smaller beyond.2.2.1 beyond.2.2.2
  | memory =>
    rw [classify_sound_iff rfl (read_memory _) fun r => le_roundAway]
    refine (and_iff_right fun _ => memory_enough p95).trans (forall₂_congr fun r _ => forall_congr' fun beyond => ?_)
    exact memory_smaller beyond.2.2.1 beyond.2.2.2
  | other name apart => exact iff_of_true (sound_none (other_unset rfl)) trivial

/-- A P95 of 12m without a request gets 10m; a request of 9m, beyond-provisioned at a P95 of 1m, is to be "reduced" to 10m. -/
theorem recommended_below :
    ¬ Sound (12 / 1000) none (classifyRightsizing (freshRow "app" .cpu none none none) (12 / 1000) none none .cpu) ∧
    ¬ Sound (1 / 1000) (some (9 / 1000))
      (classifyRightsizing (freshRow "app" .cpu (some "9m") none none) (1 / 1000) (some (9 / 1000)) none .cpu) := by
  rw [classify_sound_iff rfl (read_cpu _) milli_up, classify_sound_iff rfl (read_cpu _) milli_up, cpu_enough]
  have nine : quantityToFloat (9 / 1000) .cpu = 9 / 1000 := by norm_num [quantityToFloat, roundAway]
  have beyond : OverProvisioned .cpu (1 / 1000) (9 / 1000) none := ⟨rfl, rfl, by norm_num, by norm_num [nine, overThreshold]⟩
  constructor
  · rintro ⟨fine, -⟩
    exact fine (.inr fun r impossible => absurd impossible (Option.some_ne_none r).symm) (.inl (by norm_num))
  · rintro ⟨-, fine⟩
    have less := fine _ rfl beyond
    rw [cpu_smaller beyond.2.2.1 beyond.2.2.2] at less
    exact less (by norm_num [FlooredCPU])

end Classes

end Soundness

end Rightsizing
