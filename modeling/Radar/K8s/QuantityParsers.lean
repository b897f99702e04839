import Mathlib.Data.Bool.AllAny
import Radar.Base.GoText
import Radar.K8s.Quantities

/- The readers of metric quantities, pkg/k8score/metrics_history.go and k8s-ui's utils/format.ts. The
   UI's numbers are exact rationals here. Of what %f and parseFloat take, the forms no quantity has
   are left out: Inf, NaN, hexadecimal digits and the underscores between digits. -/
namespace QuantityParsers
open GoText Binary64 Quantities List

section Scanning

/-- A sign, and the text after it. -/
def takeSign : List Char → Int × List Char
  | '-' :: rest => (-1, rest)
  | '+' :: rest => (1, rest)
  | s => (1, s)

/-- The letter of an exponent, with the sign and the digits behind it. -/
structure Mark where
  letter : Char
  sign : Int
  digits : List Char

structure Number where
  sign : Int
  whole : List Char
  frac : List Char
  mark : Option Mark

def scanMark : List Char → Option Mark
  | [] => none
  | c :: rest =>
    if c ∈ ['e', 'E', 'p', 'P'] then
      some ⟨c, (takeSign rest).1, (takeSign rest).2.takeWhile Char.isDigit⟩
    else none

/-- The longest beginning that has the shape of a number. -/
def scanNumber (s : List Char) : Number := let (sign, body) := takeSign s
  match body.dropWhile Char.isDigit with
  | '.' :: rest =>
    ⟨sign, body.takeWhile Char.isDigit, rest.takeWhile Char.isDigit, scanMark (rest.dropWhile Char.isDigit)⟩
  | rest => ⟨sign, body.takeWhile Char.isDigit, [], scanMark rest⟩

def Number.mantissa (n : Number) : ℚ := decimal n.whole + decimal n.frac / 10 ^ n.frac.length

end Scanning

section Go

/-- Go's conversion of a float64 to int64: truncation where the result is one, and whatever the
    platform makes of it elsewhere. -/
structure Platform where
  toInt64 : ℚ → Int
  truncates : ∀ f, -0x8000000000000000 ≤ truncate f → truncate f < 0x8000000000000000 →
    toInt64 f = truncate f

def wrap64 (n : Int) : Int := n.bmod 0x10000000000000000

def skipSpace (s : List Char) : List Char := s.dropWhile fun c => isSpace c && c != '\n'

/-- strconv.ParseInt of a sign and digits. -/
def inInt64 (n : Int) : Option Int :=
  if -0x8000000000000000 ≤ n ∧ n < 0x8000000000000000 then some n else none

/-- fmt.Sscanf(s, "%d", &n) for an int64, `none` for an error. -/
def sscanfInt (s : List Char) : Option Int := let (sign, rest) := takeSign (skipSpace s)
  let digits := rest.takeWhile Char.isDigit
  if digits = [] then none else inInt64 (sign * decimal digits)

/-- A decimal as a float64, `none` beyond the range. -/
def float64 (v : ℚ) : Option ℚ := if |nearest v| < 2 ^ 1024 then some (nearest v) else none

/-- fmt.Sscanf(s, "%f", &n): the token takes the letters p and P for exponents, ParseFloat does not. -/
def sscanfFloat (s : List Char) : Option ℚ := let n := scanNumber (skipSpace s)
  if n.whole = [] ∧ n.frac = [] then none
  else match n.mark with
    | none => float64 (n.sign * n.mantissa)
    | some mark =>
      if mark.letter ∈ ['e', 'E'] ∧ mark.digits ≠ [] then
        float64 (n.sign * (n.mantissa * 10 ^ (mark.sign * decimal mark.digits)))
      else none

def parseCPU (p : Platform) (s : List Char) : Int := if s = [] then 0
  else if 1 < s.length ∧ s.getLast? = some 'n' then (sscanfInt s.dropLast).getD 0
  else if 1 < s.length ∧ s.getLast? = some 'u' then
    ((sscanfInt s.dropLast).map fun n => wrap64 (n * 1000)).getD 0
  else if 1 < s.length ∧ s.getLast? = some 'm' then
    ((sscanfInt s.dropLast).map fun n => wrap64 (n * 1000000)).getD 0
  else ((sscanfFloat s).map fun n => p.toInt64 (nearest (n * 1000000000))).getD 0

def memorySuffixes : List (List Char × Int) :=
  [(['K', 'i'], 1024), (['M', 'i'], 1024 * 1024), (['G', 'i'], 1024 * 1024 * 1024),
    (['T', 'i'], 1024 * 1024 * 1024 * 1024), (['K'], 1000), (['M'], 1000 * 1000),
    (['G'], 1000 * 1000 * 1000), (['T'], 1000 * 1000 * 1000 * 1000)]

/-- The source ranges over a map; no text ends with two of its suffixes (one_suffix). -/
def parseMemory (s : List Char) : Int := if s = [] then 0
  else
    match memorySuffixes.find? fun e => decide (e.1.length < s.length) && e.1.isSuffixOf s with
    | some (suffix, multiplier) =>
      ((sscanfInt (s.take (s.length - suffix.length))).map fun n => wrap64 (n * multiplier)).getD 0
    | none => (sscanfInt s).getD 0

end Go

section Ui

/-- The characters String.prototype.trim strips. -/
def isJsSpace (c : Char) : Bool :=
  c ∈ ['\t', '\n', '\x0b', '\x0c', '\r', ' ', '\u00a0', '\u1680', '\u2028', '\u2029', '\u202f',
    '\u205f', '\u3000', '\ufeff'] || ('\u2000' ≤ c && c ≤ '\u200a')

def trim (s : List Char) : List Char := ((s.dropWhile isJsSpace).reverse.dropWhile isJsSpace).reverse

/-- parseInt(s, 10), `none` for NaN. -/
def parseInt (s : List Char) : Option Int := let (sign, rest) := takeSign (s.dropWhile isJsSpace)
  let digits := rest.takeWhile Char.isDigit
  if digits = [] then none else some (sign * decimal digits)

/-- parseFloat(s), `none` for NaN: an exponent without digits is not part of the number. -/
def parseFloat (s : List Char) : Option ℚ := let n := scanNumber (s.dropWhile isJsSpace)
  if n.whole = [] ∧ n.frac = [] then none
  else match n.mark with
    | none => some (n.sign * n.mantissa)
    | some mark =>
      if mark.letter ∈ ['e', 'E'] ∧ mark.digits ≠ [] then
        some (n.sign * (n.mantissa * 10 ^ (mark.sign * decimal mark.digits)))
      else some (n.sign * n.mantissa)

def parseCPUToNanocores (cpuString : List Char) : ℚ := if cpuString = [] then 0
  else
    let str := trim cpuString
    if str.getLast? = some 'n' then (parseInt str.dropLast).getD 0
    else if str.getLast? = some 'm' then (parseInt str.dropLast).getD 0 * 1000000
    else ((parseFloat str).map fun cores => cores * 1000000000).getD 0

/-- str.match(/^(\d+(?:\.\d+)?)\s*([A-Za-z]*)$/), the two groups. -/
def matchMemory (s : List Char) : Option (List Char × List Char) := let whole := s.takeWhile Char.isDigit
  let rest := s.dropWhile Char.isDigit
  let (number, rest) := match rest with
    | '.' :: after =>
      if after.takeWhile Char.isDigit = [] then (whole, rest)
      else (whole ++ '.' :: after.takeWhile Char.isDigit, after.dropWhile Char.isDigit)
    | _ => (whole, rest)
  let suffix := rest.dropWhile isJsSpace
  if whole ≠ [] ∧ suffix.all Char.isAlpha then some (number, suffix) else none

def binarySuffixes : List (List Char × ℚ) :=
  [(['K', 'i'], 1024), (['M', 'i'], 1024 ^ 2), (['G', 'i'], 1024 ^ 3), (['T', 'i'], 1024 ^ 4)]

def decimalSuffixes : List (List Char × ℚ) :=
  [(['k'], 1000), (['K'], 1000), (['M'], 1000 ^ 2), (['G'], 1000 ^ 3), (['T'], 1000 ^ 4)]

def parseMemoryToBytes (memString : List Char) : ℚ := if memString = [] then 0
  else
    match matchMemory (trim memString) with
    | none => 0
    | some (number, suffix) =>
      let num := (parseFloat number).getD 0
      match binarySuffixes.lookup suffix with
      | some factor => num * factor
      | none =>
        match decimalSuffixes.lookup suffix with
        | some factor => num * factor
        | none => num

end Ui

section Texts

theorem digit_mem {c : Char} (digit : c.isDigit = true) :
    c ∈ ['0', '1', '2', '3', '4', '5', '6', '7', '8', '9'] := by
  simp only [Char.isDigit, Bool.and_eq_true, decide_eq_true_eq] at digit
  have lower : 48 ≤ c.toNat := by
    have bound := UInt32.le_iff_toNat_le.mp digit.1
    simpa using bound
  have upper : c.toNat ≤ 57 := by
    have bound := UInt32.le_iff_toNat_le.mp digit.2
    simpa using bound
  have known : ∀ n, 48 ≤ n → n ≤ 57 →
      Char.ofNat n ∈ ['0', '1', '2', '3', '4', '5', '6', '7', '8', '9'] := by decide +revert
  rw [← Char.ofNat_toNat c]
  exact known c.toNat lower upper

/-- The characters a number begins and ends with. -/
def numberChars : List Char := ['0', '1', '2', '3', '4', '5', '6', '7', '8', '9', '.']

def suffixChars : List Char := ['n', 'u', 'm', 'k', 'K', 'M', 'G', 'T', 'P', 'E', 'e']

theorem number_char {c : Char} (member : c ∈ numberChars) :
    isSpace c = false ∧ isJsSpace c = false ∧ c ≠ '+' ∧ c ≠ '-' ∧ c ≠ 'i' ∧ c ∉ suffixChars := by
  have all : ∀ d ∈ numberChars,
      isSpace d = false ∧ isJsSpace d = false ∧ d ≠ '+' ∧ d ≠ '-' ∧ d ≠ 'i' ∧ d ∉ suffixChars :=
    all_iff_forall_prop.mp (by decide)
  exact all c member

theorem suffix_char {c : Char} (member : c ∈ suffixChars) :
    c.isDigit = false ∧ c ≠ '.' ∧ isJsSpace c = false := by
  have all : ∀ d ∈ suffixChars, d.isDigit = false ∧ d ≠ '.' ∧ isJsSpace d = false :=
    all_iff_forall_prop.mp (by decide)
  exact all c member

/-- What may follow a number: nothing, or a suffix. -/
def Ends (t : List Char) : Prop := ∀ c ∈ t.head?, c ∈ suffixChars

theorem ends_nil : Ends [] := by
  intro c impossible
  cases impossible

theorem ends_cons {c : Char} {t : List Char} (member : c ∈ suffixChars) : Ends (c :: t) := by
  intro d first
  cases first
  exact member

theorem suffix_ends (s : Suffix) : Ends s.text := by
  cases s with
  | decimalSI d =>
    cases d with
    | one => exact ends_nil
    | _ => exact ends_cons (by decide)
  | binarySI b => cases b <;> exact ends_cons (by decide)
  | exponent e =>
    apply ends_cons
    cases e.upper <;> decide

variable {q : Quantity} {t : List Char}

theorem digits_taken (ds : Digits) {rest : List Char} (stop : ∀ c ∈ rest.head?, c.isDigit = false) :
    (ds.chars ++ rest).takeWhile Char.isDigit = ds.chars ∧
      (ds.chars ++ rest).dropWhile Char.isDigit = rest := by
  rw [takeWhile_append_of_pos ds.digits, dropWhile_append_of_pos ds.digits]
  cases rest with
  | nil => simp
  | cons c rest =>
    have other := stop c rfl
    simp [other]

theorem ends_stop (ends : Ends t) : ∀ c ∈ t.head?, c.isDigit = false :=
  fun c first => (suffix_char (ends c first)).1

theorem tail_stop (ends : Ends t) : ∀ c ∈ (q.tail ++ t).head?, c.isDigit = false := by
  intro c first
  unfold Quantity.tail at first
  split at first
  · simp only [cons_append, head?_cons, Option.mem_some_iff] at first
    subst first
    decide
  · exact ends_stop ends c first

theorem digits_head {ds : Digits} {c : Char} (first : c ∈ ds.chars) : c ∈ numberChars := by
  have member := digit_mem (ds.digits c first)
  simp only [numberChars, mem_cons, not_mem_nil, or_false] at member ⊢
  tauto

theorem body_head (q : Quantity) (t : List Char) :
    ∃ c rest, q.whole.chars ++ (q.tail ++ t) = c :: rest ∧ c ∈ numberChars := by
  cases chars : q.whole.chars with
  | cons c rest => exact ⟨c, rest ++ (q.tail ++ t), rfl, digits_head (chars ▸ mem_cons_self)⟩
  | nil =>
    have frac := q.some_.resolve_left (fun some_ => some_ chars)
    have point : q.point = true := by
      cases point : q.point with
      | true => rfl
      | false => exact absurd (q.pointed point) frac
    exact ⟨'.', q.frac.chars ++ t, by simp [Quantity.tail, point], by decide⟩

theorem takeSign_plain {c : Char} {rest : List Char} (plain : c ∈ numberChars) :
    takeSign (c :: rest) = (1, c :: rest) := by
  have other := number_char plain
  unfold takeSign
  split <;> rename_i same
  · exact absurd (cons.inj same).1 other.2.2.2.1
  · exact absurd (cons.inj same).1 other.2.2.1
  · rfl

theorem takeSign_numeral (q : Quantity) (t : List Char) :
    takeSign (q.numeral ++ t) = (q.sign.unit, q.whole.chars ++ (q.tail ++ t)) := by
  obtain ⟨c, rest, body, plain⟩ := body_head q t
  rw [Quantity.numeral, append_assoc, append_assoc, body]
  cases q.sign with
  | none => exact takeSign_plain plain
  | plus => rfl
  | minus => rfl

theorem numeral_head (q : Quantity) (t : List Char) :
    ∃ c rest, q.numeral ++ t = c :: rest ∧ isSpace c = false ∧ isJsSpace c = false := by
  obtain ⟨c, rest, body, plain⟩ := body_head q t
  have other := number_char plain
  rw [Quantity.numeral, append_assoc, append_assoc, body]
  cases q.sign with
  | none => exact ⟨c, rest, rfl, other.1, other.2.1⟩
  | plus => exact ⟨'+', c :: rest, rfl, by decide, by decide⟩
  | minus => exact ⟨'-', c :: rest, rfl, by decide, by decide⟩

theorem skip_numeral (q : Quantity) (t : List Char) : skipSpace (q.numeral ++ t) = q.numeral ++ t ∧
      (q.numeral ++ t).dropWhile isJsSpace = q.numeral ++ t := by
  obtain ⟨c, rest, shape, go, js⟩ := numeral_head q t
  rw [shape]
  constructor
  · simp [skipSpace, go]
  · simp [js]

/-- Sscanf's %d takes the whole part. -/
theorem sscanfInt_numeral (q : Quantity) (ends : Ends t) : sscanfInt (q.numeral ++ t) =
    if q.whole.chars = [] then none else inInt64 (q.sign.unit * q.wholePart) := by
  have taken := (digits_taken q.whole (@tail_stop q t ends)).1
  simp only [sscanfInt, (skip_numeral q t).1, takeSign_numeral, taken]
  rfl

theorem parseInt_numeral (q : Quantity) (ends : Ends t) : parseInt (q.numeral ++ t) =
    if q.whole.chars = [] then none else some (q.sign.unit * q.wholePart) := by
  have taken := (digits_taken q.whole (@tail_stop q t ends)).1
  simp only [parseInt, (skip_numeral q t).2, takeSign_numeral, taken]
  rfl

/-- Both floating-point readers take the number whole, and an exponent behind it. -/
theorem scanNumber_numeral (q : Quantity) (ends : Ends t) : scanNumber (q.numeral ++ t) =
    ⟨q.sign.unit, q.whole.chars, q.frac.chars, scanMark t⟩ := by
  have whole := digits_taken q.whole (@tail_stop q t ends)
  have frac := digits_taken q.frac (ends_stop ends)
  simp only [scanNumber, takeSign_numeral, whole]
  cases point : q.point with
  | true =>
    simp only [Quantity.tail, point, if_true, cons_append, frac]
  | false =>
    have none := q.pointed point
    simp only [Quantity.tail, point, Bool.false_eq_true, if_false, nil_append, none]
    split
    · rename_i rest
      have dot := ends '.' rfl
      exact absurd dot (by decide)
    · rfl

theorem some_digits (q : Quantity) : ¬ (q.whole.chars = [] ∧ q.frac.chars = []) := by
  rintro ⟨whole, frac⟩
  cases q.some_ with
  | inl some_ => exact some_ whole
  | inr some_ => exact some_ frac

theorem exponent_mark (e : Exponent) : scanMark e.text =
    some ⟨if e.upper then 'E' else 'e', e.sign.unit, e.digits.chars⟩ := by
  have sign : takeSign (e.sign.text ++ e.digits.chars) = (e.sign.unit, e.digits.chars) := by
    obtain ⟨c, rest, shape⟩ := exists_cons_of_ne_nil e.some_
    have plain : c ∈ numberChars := digits_head (shape ▸ mem_cons_self)
    cases e.sign with
    | none =>
      rw [shape]
      exact takeSign_plain plain
    | plus => rfl
    | minus => rfl
  have taken := (@digits_taken e.digits [] (by simp)).1
  rw [append_nil] at taken
  simp only [Exponent.text, scanMark, sign, taken]
  cases e.upper <;> rfl

end Texts

section Readings
variable {p : Platform} {q : Quantity} {e : Exponent}

theorem numeral_last (q : Quantity) : ∃ front c, q.numeral = front ++ [c] ∧ c ∈ numberChars := by
  have digits : ∀ ds : Digits, ds.chars ≠ [] → ∃ front c, ds.chars = front ++ [c] ∧ c ∈ numberChars := by
    intro ds some_
    exact ⟨ds.chars.dropLast, ds.chars.getLast some_, (dropLast_append_getLast some_).symm,
      digits_head (getLast_mem some_)⟩
  cases point : q.point with
  | false =>
    obtain ⟨front, c, whole, last⟩ := digits q.whole
      (q.some_.resolve_right fun some_ => some_ (q.pointed point))
    exact ⟨q.sign.text ++ front, c, by simp [Quantity.numeral, Quantity.tail, point, whole], last⟩
  | true =>
    by_cases none : q.frac.chars = []
    · exact ⟨q.sign.text ++ q.whole.chars, '.', by simp [Quantity.numeral, Quantity.tail, point, none],
        by decide⟩
    · obtain ⟨front, c, frac, last⟩ := digits q.frac none
      exact ⟨q.sign.text ++ (q.whole.chars ++ '.' :: front), c,
        by simp [Quantity.numeral, Quantity.tail, point, frac], last⟩

theorem text_ne_nil (q : Quantity) : q.text ≠ [] := by
  obtain ⟨front, c, shape, _⟩ := numeral_last q
  simp [Quantity.text, shape]

theorem binary_text (s : BinarySI) : ∃ letter, s.text = [letter, 'i'] := by
  cases s <;> exact ⟨_, rfl⟩

/-- What the last character of a text known. -/
structure LastChar (q : Quantity) (c : Char) : Prop where
  char : c = 'i' ∨ c ∈ suffixChars ∨ c ∈ numberChars
  nano : c = 'n' → q.suffix = .decimalSI .nano
  micro : c = 'u' → q.suffix = .decimalSI .micro
  milli : c = 'm' → q.suffix = .decimalSI .milli

theorem last_number {c : Char} (number : c ∈ numberChars) : LastChar q c := by
  have other := (number_char number).2.2.2.2.2
  constructor
  · exact .inr (.inr number)
  all_goals
    rintro rfl
    exact absurd (by decide) other

theorem text_last (q : Quantity) : ∃ front c, q.text = front ++ [c] ∧ LastChar q c := by
  obtain ⟨front, d, shape, last⟩ := numeral_last q
  cases kind : q.suffix with
  | decimalSI s =>
    cases s with
    | one =>
      exact ⟨front, d, by simp [Quantity.text, kind, Suffix.text, DecimalSI.text, shape], last_number last⟩
    | _ =>
      refine ⟨q.numeral, _, by rw [Quantity.text, kind]; rfl, ?_⟩
      constructor <;> simp [suffixChars, kind]
  | binarySI s =>
    obtain ⟨letter, text⟩ := binary_text s
    refine ⟨q.numeral ++ [letter], 'i', by simp [Quantity.text, kind, Suffix.text, text], ?_⟩
    constructor <;> simp
  | exponent e =>
    have split := dropLast_append_getLast e.some_
    refine ⟨q.numeral ++ (if e.upper then 'E' else 'e') :: (e.sign.text ++ e.digits.chars.dropLast),
      e.digits.chars.getLast e.some_, ?_, last_number (digits_head (getLast_mem e.some_))⟩
    simp only [Quantity.text, kind, Suffix.text, Exponent.text, append_assoc, cons_append]
    rw [split]

theorem trim_text (q : Quantity) : trim q.text = q.text := by
  obtain ⟨front, c, shape, last⟩ := text_last q
  have plain : isJsSpace c = false := by
    obtain rfl | suffix | number := last.char
    · decide
    · exact (suffix_char suffix).2.2
    · exact (number_char number).2.1
  rw [trim, Quantity.text, (skip_numeral q q.suffix.text).2, ← Quantity.text, shape, reverse_append]
  simp [plain]

/-- The three suffixes parseCPU knows are cut off. -/
theorem text_unit {c : Char} (suffix : q.suffix.text = [c]) :
    q.text.getLast? = some c ∧ q.text.dropLast = q.numeral ∧ 1 < q.text.length := by
  obtain ⟨front, d, shape, _⟩ := numeral_last q
  have whole : q.text = q.numeral ++ [c] := by rw [Quantity.text, suffix]
  rw [whole]
  refine ⟨getLast?_concat, dropLast_concat, ?_⟩
  rw [shape, length_append, length_append]
  simp only [length_singleton]
  omega

theorem parseCPU_nano (suffix : q.suffix = .decimalSI .nano) :
    parseCPU p q.text = (sscanfInt q.numeral).getD 0 := by
  obtain ⟨last, front, long⟩ := @text_unit q 'n' (by rw [suffix]; rfl)
  rw [parseCPU, if_neg (text_ne_nil q), if_pos ⟨long, last⟩, front]

theorem parseCPU_micro (suffix : q.suffix = .decimalSI .micro) :
    parseCPU p q.text = ((sscanfInt q.numeral).map fun n => wrap64 (n * 1000)).getD 0 := by
  obtain ⟨last, front, long⟩ := @text_unit q 'u' (by rw [suffix]; rfl)
  rw [parseCPU, if_neg (text_ne_nil q), if_neg (by rw [last]; simp), if_pos ⟨long, last⟩, front]

theorem parseCPU_milli (suffix : q.suffix = .decimalSI .milli) :
    parseCPU p q.text = ((sscanfInt q.numeral).map fun n => wrap64 (n * 1000000)).getD 0 := by
  obtain ⟨last, front, long⟩ := @text_unit q 'm' (by rw [suffix]; rfl)
  rw [parseCPU, if_neg (text_ne_nil q), if_neg (by rw [last]; simp), if_neg (by rw [last]; simp),
    if_pos ⟨long, last⟩, front]

theorem parseCPU_float (nano : q.suffix ≠ .decimalSI .nano) (micro : q.suffix ≠ .decimalSI .micro)
    (milli : q.suffix ≠ .decimalSI .milli) : parseCPU p q.text =
      ((sscanfFloat q.text).map fun n => p.toInt64 (nearest (n * 1000000000))).getD 0 := by
  obtain ⟨front, c, shape, known⟩ := text_last q
  have last : ∀ d, 1 < q.text.length ∧ q.text.getLast? = some d → c = d := by
    rintro d ⟨_, same⟩
    rw [shape, getLast?_concat] at same
    exact Option.some.inj same
  rw [parseCPU, if_neg (text_ne_nil q), if_neg fun same => nano (known.nano (last _ same)),
    if_neg fun same => micro (known.micro (last _ same)),
    if_neg fun same => milli (known.milli (last _ same))]

/-- The suffixes whose first letter %f takes for an exponent's. -/
def marked : Suffix → Bool
  | .decimalSI .peta => true
  | .decimalSI .exa => true
  | .binarySI .pebi => true
  | .binarySI .exbi => true
  | _ => false

theorem scanNumber_text (q : Quantity) :
    scanNumber q.text = ⟨q.sign.unit, q.whole.chars, q.frac.chars, scanMark q.suffix.text⟩ :=
  scanNumber_numeral q (suffix_ends q.suffix)

theorem sscanfFloat_marked (mark : marked q.suffix = true) : sscanfFloat q.text = none := by
  have scanned : ∃ letter, scanMark q.suffix.text = some ⟨letter, 1, []⟩ := by
    unfold marked at mark
    split at mark
    · rename_i suffix
      exact ⟨'P', by rw [suffix]; rfl⟩
    · rename_i suffix
      exact ⟨'E', by rw [suffix]; rfl⟩
    · rename_i suffix
      exact ⟨'P', by rw [suffix]; rfl⟩
    · rename_i suffix
      exact ⟨'E', by rw [suffix]; rfl⟩
    · cases mark
  obtain ⟨letter, scanned⟩ := scanned
  have skip : skipSpace q.text = q.text := (skip_numeral q q.suffix.text).1
  simp only [sscanfFloat, skip, scanNumber_text, if_neg (some_digits q), scanned]
  simp

theorem exponent_value (suffix : q.suffix = .exponent e) :
    (q.sign.unit : ℚ) * (q.mantissa * 10 ^ (e.sign.unit * decimal e.digits.chars : Int)) = q.value := by
  rw [Quantity.value, Quantity.magnitude, suffix]
  rfl

theorem sscanfFloat_exponent (suffix : q.suffix = .exponent e) : sscanfFloat q.text = float64 q.value := by
  have skip : skipSpace q.text = q.text := (skip_numeral q q.suffix.text).1
  have letter : (if e.upper then 'E' else 'e') ∈ ['e', 'E'] := by cases e.upper <;> decide
  have text : q.suffix.text = e.text := by rw [suffix]; rfl
  simp only [sscanfFloat, skip, scanNumber_text, if_neg (some_digits q), text, exponent_mark]
  rw [if_pos ⟨letter, e.some_⟩, ← exponent_value suffix]
  rfl

theorem unmarked_scan (mark : marked q.suffix = false) (plain : ∀ e, q.suffix ≠ .exponent e) :
    scanMark q.suffix.text = none := by
  cases kind : q.suffix with
  | decimalSI s => cases s <;> first | rfl | (rw [kind] at mark; cases mark)
  | binarySI s => cases s <;> first | rfl | (rw [kind] at mark; cases mark)
  | exponent e => exact absurd kind (plain e)

/-- Any other suffix is not seen. -/
theorem sscanfFloat_plain (mark : marked q.suffix = false) (plain : ∀ e, q.suffix ≠ .exponent e) :
    sscanfFloat q.text = float64 (q.sign.unit * q.mantissa) := by
  have skip : skipSpace q.text = q.text := (skip_numeral q q.suffix.text).1
  simp only [sscanfFloat, skip, scanNumber_text, if_neg (some_digits q), unmarked_scan mark plain]
  rfl

theorem parseFloat_exponent (suffix : q.suffix = .exponent e) : parseFloat q.text = some q.value := by
  have skip : q.text.dropWhile isJsSpace = q.text := (skip_numeral q q.suffix.text).2
  have letter : (if e.upper then 'E' else 'e') ∈ ['e', 'E'] := by cases e.upper <;> decide
  have text : q.suffix.text = e.text := by rw [suffix]; rfl
  simp only [parseFloat, skip, scanNumber_text, if_neg (some_digits q), text, exponent_mark]
  rw [if_pos ⟨letter, e.some_⟩, ← exponent_value suffix]
  rfl

theorem parseFloat_plain (plain : ∀ e, q.suffix ≠ .exponent e) :
    parseFloat q.text = some (q.sign.unit * q.mantissa) := by
  have skip : q.text.dropWhile isJsSpace = q.text := (skip_numeral q q.suffix.text).2
  have mark : scanMark q.suffix.text = none ∨ ∃ letter, scanMark q.suffix.text = some ⟨letter, 1, []⟩ := by
    cases kind : q.suffix with
    | decimalSI s => cases s <;> first | exact .inl rfl | exact .inr ⟨_, rfl⟩
    | binarySI s => cases s <;> first | exact .inl rfl | exact .inr ⟨_, rfl⟩
    | exponent e => exact absurd kind (plain e)
  obtain none | ⟨letter, some_⟩ := mark
  · simp only [parseFloat, skip, scanNumber_text, if_neg (some_digits q), none]
    rfl
  · simp only [parseFloat, skip, scanNumber_text, if_neg (some_digits q), some_]
    simp [Number.mantissa, Quantity.mantissa, Quantity.wholePart, Quantity.fraction]

theorem nanocores_nano (suffix : q.suffix = .decimalSI .nano) :
    parseCPUToNanocores q.text = (parseInt q.numeral).getD 0 := by
  obtain ⟨last, front, _⟩ := @text_unit q 'n' (by rw [suffix]; rfl)
  simp only [parseCPUToNanocores, if_neg (text_ne_nil q), trim_text]
  rw [if_pos last, front]

theorem nanocores_milli (suffix : q.suffix = .decimalSI .milli) :
    parseCPUToNanocores q.text = (parseInt q.numeral).getD 0 * 1000000 := by
  obtain ⟨last, front, _⟩ := @text_unit q 'm' (by rw [suffix]; rfl)
  simp only [parseCPUToNanocores, if_neg (text_ne_nil q), trim_text]
  rw [if_neg (by rw [last]; simp), if_pos last, front]

theorem nanocores_float (nano : q.suffix ≠ .decimalSI .nano) (milli : q.suffix ≠ .decimalSI .milli) :
    parseCPUToNanocores q.text = ((parseFloat q.text).map fun cores => cores * 1000000000).getD 0 := by
  obtain ⟨front, c, shape, known⟩ := text_last q
  have last : ∀ d, q.text.getLast? = some d → c = d := by
    intro d same
    rw [shape, getLast?_concat] at same
    exact Option.some.inj same
  simp only [parseCPUToNanocores, if_neg (text_ne_nil q), trim_text]
  rw [if_neg fun same => nano (known.nano (last _ same)),
    if_neg fun same => milli (known.milli (last _ same))]

/-- The suffixes parseMemory knows, and their factors. -/
def memoryFactor : Suffix → Option Int
  | .binarySI .kibi => some 1024
  | .binarySI .mebi => some (1024 * 1024)
  | .binarySI .gibi => some (1024 * 1024 * 1024)
  | .binarySI .tebi => some (1024 * 1024 * 1024 * 1024)
  | .decimalSI .mega => some (1000 * 1000)
  | .decimalSI .giga => some (1000 * 1000 * 1000)
  | .decimalSI .tera => some (1000 * 1000 * 1000 * 1000)
  | _ => none

/-- The order in which the suffixes are tried does not matter. -/
theorem one_suffix {s : List Char} {e e' : List Char × Int} (member : e ∈ memorySuffixes)
    (member' : e' ∈ memorySuffixes) (ends : e.1 <:+ s) (ends' : e'.1 <:+ s) : e = e' := by
  have apart : ∀ a ∈ memorySuffixes, ∀ b ∈ memorySuffixes, a.1 <:+ b.1 → a = b := by decide
  cases suffix_or_suffix_of_suffix ends ends' with
  | inl inside => exact apart e member e' member' inside
  | inr inside => exact (apart e' member' e member inside).symm

theorem parseMemory_known {e : List Char × Int} (member : e ∈ memorySuffixes)
    (suffix : q.suffix.text = e.1) : parseMemory q.text =
      ((sscanfInt q.numeral).map fun n => wrap64 (n * e.2)).getD 0 := by
  obtain ⟨front, c, shape, _⟩ := numeral_last q
  have whole : q.text = q.numeral ++ e.1 := by rw [Quantity.text, suffix]
  have ends : e.1 <:+ q.text := ⟨q.numeral, whole.symm⟩
  have longer : e.1.length < q.text.length := by
    rw [whole, shape, length_append, length_append, length_singleton]
    omega
  have front_ : q.text.take (q.text.length - e.1.length) = q.numeral := by
    rw [whole, length_append, Nat.add_sub_cancel, take_left]
  rw [parseMemory, if_neg (text_ne_nil q)]
  cases hit : memorySuffixes.find? fun e => decide (e.1.length < q.text.length) && e.1.isSuffixOf q.text with
  | none =>
    have missed := find?_eq_none.mp hit e member
    simp [longer, isSuffixOf_iff_suffix.mpr ends] at missed
  | some e' =>
    have met := find?_some hit
    simp only [Bool.and_eq_true] at met
    have same := one_suffix member (mem_of_find?_eq_some hit) ends
      (isSuffixOf_iff_suffix.mp met.2)
    rw [← same]
    simp only [front_]

theorem parseMemory_unknown (unknown : memoryFactor q.suffix = none) :
    parseMemory q.text = (sscanfInt q.text).getD 0 := by
  have apart : ∃ front t, q.text = front ++ t ∧ ∀ e ∈ memorySuffixes, ¬ e.1 <:+ t ∧ ¬ t <:+ e.1 := by
    have number : ∀ c ∈ numberChars, ∀ e ∈ memorySuffixes, ¬ e.1 <:+ [c] ∧ ¬ [c] <:+ e.1 :=
      all_iff_forall_prop.mp (by decide)
    cases kind : q.suffix with
    | decimalSI s =>
      cases s with
      | one =>
        obtain ⟨front, c, shape, last⟩ := numeral_last q
        exact ⟨front, [c], by simp [Quantity.text, kind, Suffix.text, DecimalSI.text, shape], number c last⟩
      | mega | giga | tera =>
        rw [kind] at unknown
        cases unknown
      | _ => exact ⟨q.numeral, _, congrArg (fun s => q.numeral ++ Suffix.text s) kind, by decide⟩
    | binarySI s =>
      cases s with
      | pebi | exbi =>
        exact ⟨q.numeral, _, congrArg (fun s => q.numeral ++ Suffix.text s) kind, by decide⟩
      | _ =>
        rw [kind] at unknown
        cases unknown
    | exponent e =>
      have split := dropLast_append_getLast e.some_
      refine ⟨q.numeral ++ (if e.upper then 'E' else 'e') :: (e.sign.text ++ e.digits.chars.dropLast),
        [e.digits.chars.getLast e.some_], ?_, number _ (digits_head (getLast_mem e.some_))⟩
      simp only [Quantity.text, kind, Suffix.text, Exponent.text, append_assoc, cons_append]
      rw [split]
  obtain ⟨front, t, shape, apart⟩ := apart
  have none : memorySuffixes.find? (fun e => decide (e.1.length < q.text.length) &&
      e.1.isSuffixOf q.text) = none := by
    apply find?_eq_none.mpr
    intro e member met
    simp only [Bool.and_eq_true] at met
    have ends := isSuffixOf_iff_suffix.mp met.2
    have ends' : t <:+ q.text := ⟨front, shape.symm⟩
    cases suffix_or_suffix_of_suffix ends ends' with
    | inl inside => exact (apart e member).1 inside
    | inr inside => exact (apart e member).2 inside
  rw [parseMemory, if_neg (text_ne_nil q), none]

/-- The texts the UI's pattern matches: no sign, digits on both sides of a point, no exponent. -/
structure Plain (q : Quantity) : Prop where
  sign : q.sign = .none
  whole : q.whole.chars ≠ []
  frac : q.point = true → q.frac.chars ≠ []
  suffix : ∀ e, q.suffix ≠ .exponent e

/-- The factors of the UI's two tables. -/
def uiFactor : Suffix → ℚ
  | .binarySI .kibi => 1024
  | .binarySI .mebi => 1024 ^ 2
  | .binarySI .gibi => 1024 ^ 3
  | .binarySI .tebi => 1024 ^ 4
  | .decimalSI .kilo => 1000
  | .decimalSI .mega => 1000 ^ 2
  | .decimalSI .giga => 1000 ^ 3
  | .decimalSI .tera => 1000 ^ 4
  | _ => 1

theorem suffix_letters (plain : ∀ e, q.suffix ≠ .exponent e) : q.suffix.text.all Char.isAlpha = true := by
  cases kind : q.suffix with
  | decimalSI s => cases s <;> decide
  | binarySI s => cases s <;> decide
  | exponent e => exact absurd kind (plain e)

theorem suffix_no_space (s : Suffix) : s.text.dropWhile isJsSpace = s.text := by
  cases shape : s.text with
  | nil => rfl
  | cons c rest =>
    have first := suffix_ends s c (by rw [shape]; rfl)
    simp [(suffix_char first).2.2]

theorem matchMemory_undigited {s : List Char} (empty : s.takeWhile Char.isDigit = []) :
    matchMemory s = none := by
  simp [matchMemory, empty]

/-- Past the sign and the point only the suffix decides. -/
theorem matchMemory_number (sign : q.sign = .none) (whole : q.whole.chars ≠ [])
    (frac : q.point = true → q.frac.chars ≠ []) : matchMemory q.text =
      if q.suffix.text.all Char.isAlpha then some (q.numeral, q.suffix.text) else none := by
  have ends := suffix_ends q.suffix
  have taken := digits_taken q.whole (@tail_stop q _ ends)
  have taken' := digits_taken q.frac (ends_stop ends)
  have shape : q.text = q.whole.chars ++ (q.tail ++ q.suffix.text) := by
    simp [Quantity.text, Quantity.numeral, sign, Sign.text]
  have number : q.numeral = q.whole.chars ++ q.tail := by
    simp [Quantity.numeral, sign, Sign.text]
  rw [shape, number]
  simp only [matchMemory, taken]
  cases point : q.point with
  | true =>
    simp only [Quantity.tail, point, if_true, cons_append, taken', if_neg (frac point),
      suffix_no_space, whole, ne_eq, not_false_eq_true, true_and]
  | false =>
    have none : q.tail = [] := by simp [Quantity.tail, point]
    rw [none, nil_append, append_nil]
    split
    · rename_i rest same
      rw [same] at ends
      exact absurd (ends '.' rfl) (by decide)
    · simp only [suffix_no_space, whole, ne_eq, not_false_eq_true, true_and]

theorem matchMemory_plain (plain : Plain q) : matchMemory q.text = some (q.numeral, q.suffix.text) := by
  rw [matchMemory_number plain.sign plain.whole plain.frac, if_pos (suffix_letters plain.suffix)]

theorem matchMemory_other (other : ¬ Plain q) : matchMemory q.text = none := by
  by_cases sign : q.sign = .none
  · have shape : q.text = q.whole.chars ++ (q.tail ++ q.suffix.text) := by
      simp [Quantity.text, Quantity.numeral, sign, Sign.text]
    have taken := digits_taken q.whole (@tail_stop q _ (suffix_ends q.suffix))
    by_cases whole : q.whole.chars = []
    · apply matchMemory_undigited
      rw [shape, taken.1, whole]
    · by_cases frac : q.point = true → q.frac.chars ≠ []
      · have exponent : ∃ e, q.suffix = .exponent e := by
          by_contra plain
          exact other ⟨sign, whole, frac, fun e same => plain ⟨e, same⟩⟩
        obtain ⟨e, suffix⟩ := exponent
        have letters : ¬ q.suffix.text.all Char.isAlpha = true := by
          obtain ⟨c, rest, digits⟩ := exists_cons_of_ne_nil e.some_
          have member : c ∈ q.suffix.text := by simp [suffix, Suffix.text, Exponent.text, digits]
          have none : ∀ d ∈ ['0', '1', '2', '3', '4', '5', '6', '7', '8', '9'],
              d.isAlpha = false := all_iff_forall_prop.mp (by decide)
          intro all
          have letter := all_eq_true.mp all c member
          rw [none c (digit_mem (e.digits.digits c (digits ▸ mem_cons_self)))] at letter
          cases letter
        rw [matchMemory_number sign whole frac, if_neg letters]
      · -- the point is not followed by a digit, and is no letter
        rw [not_forall] at frac
        obtain ⟨point, empty⟩ := frac
        rw [not_not] at empty
        have stop := (digits_taken ⟨[], by simp⟩ (ends_stop (suffix_ends q.suffix))).1
        have dot : isJsSpace '.' = false := by decide
        rw [shape]
        simp only [matchMemory, taken]
        simp only [Quantity.tail, point, if_true, cons_append, empty, nil_append]
        rw [nil_append] at stop
        rw [if_pos stop]
        simp [dot]
  · apply matchMemory_undigited
    cases kind : q.sign with
    | none => exact absurd kind sign
    | plus => simp [Quantity.text, Quantity.numeral, kind, Sign.text]
    | minus => simp [Quantity.text, Quantity.numeral, kind, Sign.text]

theorem ui_tables (plain : ∀ e, q.suffix ≠ .exponent e) (num : ℚ) :
    (match binarySuffixes.lookup q.suffix.text with
      | some factor => num * factor
      | none =>
        match decimalSuffixes.lookup q.suffix.text with
        | some factor => num * factor
        | none => num) = num * uiFactor q.suffix := by
  cases kind : q.suffix with
  | decimalSI s =>
    cases s <;>
      simp [Suffix.text, DecimalSI.text, binarySuffixes, decimalSuffixes, lookup_cons, uiFactor]
  | binarySI s =>
    cases s <;>
      simp [Suffix.text, BinarySI.text, binarySuffixes, decimalSuffixes, lookup_cons, uiFactor]
  | exponent e => exact absurd kind (plain e)

theorem parseMemoryToBytes_plain (plain : Plain q) :
    parseMemoryToBytes q.text = q.mantissa * uiFactor q.suffix := by
  have number : parseFloat q.numeral = some q.mantissa := by
    have skip := (skip_numeral q []).2
    have scan := scanNumber_numeral q ends_nil
    rw [append_nil] at skip scan
    have unit : q.sign.unit = 1 := by rw [plain.sign]; rfl
    have same : Number.mantissa ⟨1, q.whole.chars, q.frac.chars, none⟩ = q.mantissa := rfl
    simp only [parseFloat, skip, scan, if_neg (some_digits q), scanMark, unit, same]
    push_cast
    rw [one_mul]
  rw [parseMemoryToBytes, if_neg (text_ne_nil q), trim_text, matchMemory_plain plain]
  simp only [number, Option.getD_some]
  exact ui_tables plain.suffix q.mantissa

theorem parseMemoryToBytes_other (other : ¬ Plain q) : parseMemoryToBytes q.text = 0 := by
  rw [parseMemoryToBytes, if_neg (text_ne_nil q), trim_text, matchMemory_other other]

end Readings

end QuantityParsers
