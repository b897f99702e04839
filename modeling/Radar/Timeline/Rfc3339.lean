import Mathlib.Data.List.TakeWhile
import Radar.Base.Calendar
import Radar.Timeline.Types

/- time.Time.Format with the layout RFC3339Nano, and how the texts it writes compare. -/
namespace Rfc3339
open Timeline TextOrder Calendar List
variable {t u : Time}

def localNs (t : Time) : Int := t.ns + t.offset * 1000000000

def localSecond (t : Time) : Int := localNs t / 1000000000

def nanosecond (t : Time) : Nat := (localNs t % 1000000000).toNat

def localDay (t : Time) : Int := localSecond t / 86400

def daySecond (t : Time) : Nat := (localSecond t % 86400).toNat

def year (t : Time) : Int := yearOf (localDay t)

/-- A number padded with zeros to a width, its sign in front. -/
def appendInt (x : Int) (width : Nat) : List Char := (if x < 0 then ['-'] else []) ++ number width x.natAbs

def appendClock (leap : Bool) (yearDay daySecond : Nat) : List Char :=
  appendInt (monthIndex leap yearDay + 1 : Nat) 2 ++ '-' ::
    (appendInt (monthDay leap yearDay + 1 : Nat) 2 ++ 'T' :: (appendInt (daySecond / 3600 : Nat) 2 ++ ':' ::
        (appendInt (daySecond % 3600 / 60 : Nat) 2 ++ ':' :: appendInt (daySecond % 3600 % 60 : Nat) 2)))

def trimZeros (digits : List Char) : List Char := (digits.reverse.dropWhile fun c => c == '0').reverse

def fraction (t : Time) : List Char := trimZeros (decimal 9 (nanosecond t))

def appendNano (t : Time) : List Char := match fraction t with
  | [] => []
  | digits => '.' :: digits

def zoneMark (offset : Int) : Char := if offset = 0 then 'Z' else if offset.tdiv 60 < 0 then '-' else '+'

/-- The zone in whole minutes, truncated. -/
def zoneMinutes (offset : Int) : Nat := (offset.tdiv 60).natAbs

def appendZone (offset : Int) : List Char := zoneMark offset :: if offset = 0 then []
    else appendInt (zoneMinutes offset / 60 : Nat) 2 ++ ':' :: appendInt (zoneMinutes offset % 60 : Nat) 2

def formatRFC3339Nano (t : Time) : List Char := appendInt (year t) 4 ++ '-' ::
    (appendClock (isLeap (year t)) (yearDay (localDay t)) (daySecond t) ++
      (appendNano t ++ appendZone t.offset))

example : formatRFC3339Nano ⟨63839707200120000000, 19800⟩ =
    "2024-01-01T17:30:00.12+05:30".toList := by decide

section Date

theorem append_int_nat (n w : Nat) : appendInt (n : Int) w = number w n := by
  have sign : ¬ (n : Int) < 0 := by omega
  rw [appendInt, if_neg sign, nil_append, Int.natAbs_natCast]

theorem append_int_small {n w : Nat} (wide : 0 < w) (bound : n < 10 ^ w) :
    appendInt (n : Int) w = decimal w n := by
  rw [append_int_nat, number, places_small wide bound]

theorem number_head {w : Nat} (wide : 0 < w) (n : Nat) :
    ∃ d rest, d < 10 ∧ number w n = digit d :: rest := by
  have some : 0 < places w n := by
    unfold places
    omega
  obtain ⟨k, count⟩ : ∃ k, places w n = k + 1 := ⟨places w n - 1, by omega⟩
  have bound := places_bound w n
  rw [count] at bound
  exact ⟨_, _, digit_bound bound, by rw [number, count, decimal]⟩

theorem dash_first : ∀ d < 10, cmp '-' (digit d) = .lt := by decide

theorem colon_last : ∀ d < 10, cmp ':' (digit d) = .gt := by decide

/-- How the texts of two years compare. Beyond four digits and before year 0 it is not their order. -/
def yearOrder (x y : Int) : Ordering := if x < 0 ∧ 0 ≤ y then .lt
  else if 0 ≤ x ∧ y < 0 then .gt
  else numberOrder .lt 4 x.natAbs y.natAbs

theorem year_order_eq_iff (x y : Int) : yearOrder x y = .eq ↔ x = y := by
  unfold yearOrder
  by_cases before : x < 0 ∧ 0 ≤ y
  · simp only [before, and_self, if_true, reduceCtorEq, false_iff]
    omega
  · by_cases after : 0 ≤ x ∧ y < 0
    · simp only [before, after, and_self, if_true, if_false, reduceCtorEq, false_iff]
      omega
    · rw [if_neg before, if_neg after, number_order_eq_iff (by decide)]
      omega

theorem lex_year (x y : Int) (after after' : List Char) :
    lexCompare (appendInt x 4 ++ '-' :: after) (appendInt y 4 ++ '-' :: after') =
      (yearOrder x y).then (lexCompare after after') := by
  have signed : ∀ (n m : Nat) (rest rest' : List Char),
      lexCompare ('-' :: number 4 n ++ rest) (number 4 m ++ rest') = .lt := by
    intro n m rest rest'
    obtain ⟨d, digits, bound, text⟩ := number_head (w := 4) (by decide) m
    rw [text, cons_append, cons_append, lex_cons, dash_first d bound]
    rfl
  unfold appendInt yearOrder
  by_cases negative : x < 0
  · by_cases negative' : y < 0
    · have before : ¬ (x < 0 ∧ 0 ≤ y) := by omega
      have after : ¬ (0 ≤ x ∧ y < 0) := by omega
      rw [if_pos negative, if_pos negative', if_neg before, if_neg after, append_assoc,
        append_assoc, lex_append_same, lex_number dash_first (by decide)]
    · rw [if_pos negative, if_neg negative', if_pos ⟨negative, by omega⟩, Ordering.lt_then]
      exact signed _ _ _ _
  · by_cases negative' : y < 0
    · have before : ¬ (x < 0 ∧ 0 ≤ y) := by omega
      rw [if_neg negative, if_pos negative', if_neg before, if_pos ⟨by omega, negative'⟩,
        Ordering.gt_then, ← lex_swap]
      exact congrArg Ordering.swap (signed _ _ _ _)
    · have before : ¬ (x < 0 ∧ 0 ≤ y) := by omega
      have after : ¬ (0 ≤ x ∧ y < 0) := by omega
      rw [if_neg negative, if_neg negative', if_neg before, if_neg after, nil_append,
        nil_append, lex_number dash_first (by decide)]

theorem lex_field {w a b : Nat} (wide : 0 < w) (first : a < 10 ^ w) (second : b < 10 ^ w) (c : Char)
    (x y : List Char) : lexCompare (appendInt a w ++ c :: x) (appendInt b w ++ c :: y) =
      (cmp a b).then (lexCompare x y) := by
  rw [append_int_small wide first, append_int_small wide second,
    lex_append (by rw [decimal_length, decimal_length]), cmp_decimal first second]
  rw [lex_cons, cmp_self_eq_eq, Ordering.eq_then]

/-- Within a year the clock fields compare as the second of the year. -/
theorem lex_clock (leap : Bool) {a b s u : Nat} (first : a < 365 + if leap then 1 else 0)
    (second : b < 365 + if leap then 1 else 0) (small : s < 86400) (small' : u < 86400) :
    lexCompare (appendClock leap a s) (appendClock leap b u) = cmp (a * 86400 + s) (b * 86400 + u) := by
  have month := (month_bounds leap a first).2.2
  have month' := (month_bounds leap b second).2.2
  have day := month_day_bound leap first
  have day' := month_day_bound leap second
  have last : lexCompare (appendInt (s % 3600 % 60 : Nat) 2) (appendInt (u % 3600 % 60 : Nat) 2) =
      cmp (s % 3600 % 60) (u % 3600 % 60) := by
    rw [append_int_small (by decide) (by omega), append_int_small (by decide) (by omega),
      cmp_decimal (by omega) (by omega)]
  unfold appendClock
  rw [lex_field (by decide) (by omega) (by omega), lex_field (by decide) (by omega) (by omega),
    lex_field (by decide) (by omega) (by omega), lex_field (by decide) (by omega) (by omega), last,
    cmp_add_right, cmp_add_right, ← cmp_div_mod (s % 3600) (u % 3600) 60 (by decide), ← cmp_div_mod s u 3600 (by decide),
    ← Ordering.then_assoc, cmp_year_day leap first second]
  apply cmp_then
  · omega
  · omega
  · intro same
    apply cmp_congr
    · omega
    · omega

end Date

section Fraction

/-- Trimming takes nothing but zeros off the end. -/
theorem trim_zeros_padded (digits : List Char) :
    ∃ k, digits = trimZeros digits ++ replicate k '0' := by
  let isZero : Char → Bool := fun c => c == '0'
  refine ⟨(digits.reverse.takeWhile isZero).length, ?_⟩
  have whole := takeWhile_append_dropWhile (p := isZero) (l := digits.reverse)
  have zeros : digits.reverse.takeWhile isZero =
      replicate (digits.reverse.takeWhile isZero).length '0' := by
    apply eq_replicate_of_mem
    intro c member
    simpa [isZero] using mem_takeWhile_imp member
  have back := congrArg reverse whole
  rw [reverse_append, reverse_reverse, zeros, reverse_replicate] at back
  exact back.symm

theorem nanosecond_bound (t : Time) : nanosecond t < 10 ^ 9 := by
  have low := Int.emod_nonneg (localNs t) (b := 1000000000) (by decide)
  have high := Int.emod_lt_of_pos (localNs t) (b := 1000000000) (by decide)
  unfold nanosecond
  omega

theorem fraction_padded (t : Time) : decimal 9 (nanosecond t) =
      fraction t ++ replicate (9 - (fraction t).length) '0' := by
  obtain ⟨k, whole⟩ := trim_zeros_padded (decimal 9 (nanosecond t))
  have length := congrArg length whole
  rw [decimal_length, length_append, length_replicate] at length
  have count : k = 9 - (fraction t).length := by
    simp only [fraction]
    omega
  rw [← count]
  exact whole

theorem nanosecond_of_fraction (same : fraction t = fraction u) : nanosecond t = nanosecond u := by
  have texts : decimal 9 (nanosecond t) = decimal 9 (nanosecond u) := by
    rw [fraction_padded t, fraction_padded u, same]
  rw [← cmp_eq_eq_iff, ← cmp_decimal (nanosecond_bound t) (nanosecond_bound u), texts, lex_self]

theorem zeros_not_after {digits : List Char} (decimal_ : ∀ c ∈ digits, ∃ d, d < 10 ∧ c = digit d) :
    lexCompare (replicate digits.length '0') digits ≠ .gt := by
  induction digits with
  | nil => simp
  | cons c rest ih =>
    obtain ⟨d, bound, same⟩ := decimal_ c mem_cons_self
    have later := ih fun c' member => decimal_ c' (mem_cons_of_mem c member)
    have zero : cmp '0' (digit d) = cmp 0 d := cmp_digit (a := 0) (by decide) bound
    rw [length_cons, replicate_succ, lex_cons, same, zero]
    intro greater
    rw [Ordering.then_eq_gt, cmp_eq_gt_iff] at greater
    rcases greater with impossible | equal
    · omega
    · exact later equal.2

theorem fraction_digits (t : Time) : ∀ c ∈ fraction t, ∃ d, d < 10 ∧ c = digit d := by
  intro c member
  apply decimal_digits (nanosecond_bound t) c
  rw [fraction_padded]
  exact mem_append_left _ member

/-- A fraction that another one begins with is the smaller of the two. -/
theorem prefix_before (short : fraction t <+: fraction u)
    (differ : nanosecond t ≠ nanosecond u) : nanosecond t < nanosecond u := by
  obtain ⟨more, whole⟩ := short
  have text := fraction_padded t
  have text' := fraction_padded u
  have compare : lexCompare (decimal 9 (nanosecond t)) (decimal 9 (nanosecond u)) ≠ .gt := by
    have rest : decimal 9 (nanosecond u) = fraction t ++
        (more ++ replicate (9 - (fraction u).length) '0') := by
      rw [text', ← whole, append_assoc]
    have width := congrArg length rest
    rw [decimal_length, length_append] at width
    rw [text, rest, lex_append_same]
    have count : 9 - (fraction t).length =
        (more ++ replicate (9 - (fraction u).length) '0').length := by omega
    rw [count]
    apply zeros_not_after
    intro c member
    apply decimal_digits (nanosecond_bound u) c
    rw [rest]
    exact mem_append_right _ member
  rw [cmp_decimal (nanosecond_bound t) (nanosecond_bound u), ne_eq, cmp_eq_gt_iff] at compare
  omega

/-- Against more of a fraction a zone comes first, but for the Z of UTC, which comes last. -/
theorem lex_zone_fraction (offset : Int) {c : Char} (dot : c = '.' ∨ ∃ d, d < 10 ∧ c = digit d)
    (after : List Char) :
    lexCompare (appendZone offset) (c :: after) = if offset = 0 then .gt else .lt := by
  have digits : ∀ d : Fin 10, cmp 'Z' (digit d) = .gt ∧ cmp '-' (digit d) = .lt ∧
      cmp '+' (digit d) = .lt := by decide
  have against : cmp 'Z' c = .gt ∧ cmp '-' c = .lt ∧ cmp '+' c = .lt := by
    rcases dot with same | ⟨d, bound, same⟩
    · rw [same]
      decide
    · rw [same]
      exact digits ⟨d, bound⟩
  rw [appendZone, zoneMark, lex_cons]
  by_cases utc : offset = 0
  · rw [if_pos utc, against.1, Ordering.gt_then, if_pos utc]
  · rw [if_neg utc]
    by_cases west : offset.tdiv 60 < 0
    · rw [if_pos west, against.2.1, Ordering.lt_then, if_neg utc]
    · rw [if_neg west, against.2.2, Ordering.lt_then, if_neg utc]

/-- How the texts of two zones compare: plus before minus before Z, then the minutes. -/
def zoneOrder (a b : Int) : Ordering := (cmp (zoneMark a) (zoneMark b)).then
    (if a = 0 then .eq
    else (numberOrder .gt 2 (zoneMinutes a / 60) (zoneMinutes b / 60)).then
      (cmp (zoneMinutes a % 60) (zoneMinutes b % 60)))

theorem mark_utc (offset : Int) : zoneMark offset = 'Z' ↔ offset = 0 := by
  unfold zoneMark
  by_cases utc : offset = 0
  · simp [utc]
  · rw [if_neg utc]
    split <;> simp [utc]

theorem lex_zone (a b : Int) : lexCompare (appendZone a) (appendZone b) = zoneOrder a b := by
  unfold appendZone zoneOrder
  rw [lex_cons]
  by_cases marks : zoneMark a = zoneMark b
  · rw [marks, cmp_self_eq_eq, Ordering.eq_then, Ordering.eq_then]
    by_cases utc : a = 0
    · have utc' : b = 0 := (mark_utc b).mp (marks ▸ (mark_utc a).mpr utc)
      rw [if_pos utc, if_pos utc', if_pos utc, lex_self]
    · have away : ¬ b = 0 := fun utc' => utc ((mark_utc a).mp (marks ▸ (mark_utc b).mpr utc'))
      rw [if_neg utc, if_neg away, if_neg utc, append_int_nat (zoneMinutes a / 60),
        append_int_nat (zoneMinutes b / 60), lex_number colon_last (by decide), append_int_small (by decide) (by omega),
        append_int_small (by decide) (by omega), cmp_decimal (by omega) (by omega)]
  · cases order : cmp (zoneMark a) (zoneMark b) with
    | eq => exact absurd ((cmp_eq_eq_iff _ _).mp order) marks
    | lt => rfl
    | gt => rfl

/-- How the texts of two times of one local second compare. -/
def tailOrder (t u : Time) : Ordering := if nanosecond t = nanosecond u then zoneOrder t.offset u.offset
  else if fraction t <+: fraction u then if t.offset = 0 then .gt else .lt
  else if fraction u <+: fraction t then if u.offset = 0 then .lt else .gt
  else cmp (nanosecond t) (nanosecond u)

theorem append_nano_eq (t : Time) : appendNano t = if fraction t = [] then [] else '.' :: fraction t := by
  unfold appendNano
  cases fraction t <;> rfl

theorem lex_tail_prefix (short : fraction t <+: fraction u) (differ : nanosecond t ≠ nanosecond u) :
    lexCompare (appendNano t ++ appendZone t.offset) (appendNano u ++ appendZone u.offset) =
      if t.offset = 0 then .gt else .lt := by
  obtain ⟨more, whole⟩ := short
  cases more with
  | nil =>
    rw [append_nil] at whole
    exact absurd (nanosecond_of_fraction whole) differ
  | cons c rest =>
    have some : fraction u ≠ [] := by
      rw [← whole]
      simp
    rw [append_nano_eq t, append_nano_eq u, if_neg some]
    by_cases none : fraction t = []
    · rw [if_pos none, nil_append, cons_append]
      exact lex_zone_fraction t.offset (Or.inl rfl) _
    · have inside : c ∈ fraction u := by
        rw [← whole]
        simp
      rw [if_neg none, cons_append, cons_append, lex_cons, cmp_self_eq_eq,
        Ordering.eq_then, ← whole, append_assoc, lex_append_same, cons_append]
      exact lex_zone_fraction t.offset (Or.inr (fraction_digits u c inside)) _

theorem lex_tail (t u : Time) :
    lexCompare (appendNano t ++ appendZone t.offset) (appendNano u ++ appendZone u.offset) =
      tailOrder t u := by
  unfold tailOrder
  by_cases same : nanosecond t = nanosecond u
  · have fractions : fraction t = fraction u := by rw [fraction, fraction, same]
    rw [if_pos same, append_nano_eq, append_nano_eq, fractions, lex_append_same, lex_zone]
  · by_cases short : fraction t <+: fraction u
    · rw [if_neg same, if_pos short, lex_tail_prefix short same]
    · by_cases short' : fraction u <+: fraction t
      · rw [if_neg same, if_neg short, if_pos short', ← lex_swap, lex_tail_prefix short' (Ne.symm same)]
        split <;> rfl
      · have some : fraction t ≠ [] := fun none => short (none ▸ nil_prefix)
        have some' : fraction u ≠ [] := fun none => short' (none ▸ nil_prefix)
        rw [if_neg same, if_neg short, if_neg short', append_nano_eq, append_nano_eq,
          if_neg some, if_neg some', cons_append, cons_append, lex_cons,
          cmp_self_eq_eq, Ordering.eq_then, lex_append_apart _ _ short short',
          ← cmp_decimal (nanosecond_bound t) (nanosecond_bound u), fraction_padded t,
          fraction_padded u, lex_append_apart _ _ short short']

end Fraction

section Order

def yearSecond (t : Time) : Nat := yearDay (localDay t) * 86400 + daySecond t

def textOrder (t u : Time) : Ordering :=
  (yearOrder (year t) (year u)).then ((cmp (yearSecond t) (yearSecond u)).then (tailOrder t u))

theorem day_second_bound (t : Time) : daySecond t < 86400 := by
  have low := Int.emod_nonneg (localSecond t) (b := 86400) (by decide)
  have high := Int.emod_lt_of_pos (localSecond t) (b := 86400) (by decide)
  unfold daySecond
  omega

theorem clock_length (leap : Bool) {a s : Nat} (day : a < 365 + if leap then 1 else 0)
    (second : s < 86400) : (appendClock leap a s).length = 14 := by
  have month := (month_bounds leap a day).2.2
  have monthDay := month_day_bound leap day
  have field : ∀ n : Nat, n < 10 ^ 2 → (appendInt (n : Int) 2).length = 2 := by
    intro n bound
    rw [append_int_small (by decide) bound, decimal_length]
  unfold appendClock
  rw [length_append, length_cons, length_append, length_cons,
    length_append, length_cons, length_append, length_cons,
    field _ (by omega), field _ (by omega), field _ (by omega), field _ (by omega),
    field _ (by omega)]

/-- The texts of any two times, compared field by field. -/
theorem lex_format (t u : Time) :
    lexCompare (formatRFC3339Nano t) (formatRFC3339Nano u) = textOrder t u := by
  rw [formatRFC3339Nano, formatRFC3339Nano, lex_year, textOrder]
  by_cases same : year t = year u
  · have first : yearDay (localDay t) < 365 + if isLeap (year t) then 1 else 0 :=
      year_day_bound (localDay t)
    have second : yearDay (localDay u) < 365 + if isLeap (year t) then 1 else 0 := by
      rw [same]
      exact year_day_bound (localDay u)
    have width : (appendClock (isLeap (year t)) (yearDay (localDay t)) (daySecond t)).length =
        (appendClock (isLeap (year t)) (yearDay (localDay u)) (daySecond u)).length := by
      rw [clock_length _ first (day_second_bound t), clock_length _ second (day_second_bound u)]
    rw [← same, lex_append width, lex_tail,
      lex_clock _ first second (day_second_bound t) (day_second_bound u)]
    rfl
  · cases order : yearOrder (year t) (year u) with
    | eq => exact absurd ((year_order_eq_iff _ _).mp order) same
    | lt => rw [Ordering.lt_then, Ordering.lt_then]
    | gt => rw [Ordering.gt_then, Ordering.gt_then]

theorem local_second_parts (t : Time) : localSecond t = daysBeforeYear (year t) * 86400 + yearSecond t := by
  have day := year_day_eq (localDay t)
  have second := Int.emod_nonneg (localSecond t) (b := 86400) (by decide)
  have whole := Int.mul_ediv_add_emod (localSecond t) 86400
  unfold year yearSecond daySecond
  unfold localDay at *
  omega

theorem instant_parts (t : Time) :
    t.ns = localSecond t * 1000000000 + nanosecond t - t.offset * 1000000000 := by
  have low := Int.emod_nonneg (localNs t) (b := 1000000000) (by decide)
  have whole := Int.mul_ediv_add_emod (localNs t) 1000000000
  unfold localSecond nanosecond
  unfold localNs at *
  omega

/-- Of two times of one local second, a fraction that begins the other one's is written the smaller,
   except in UTC, where it is written the greater; the zones have to agree with that. -/
def KeepsTail (t u : Time) : Prop :=
  if nanosecond t = nanosecond u then zoneOrder t.offset u.offset = cmp u.offset t.offset
  else if fraction t <+: fraction u then
    if t.offset = 0 then 0 < u.offset else u.offset ≤ t.offset
  else if fraction u <+: fraction t then
    if u.offset = 0 then 0 < t.offset else t.offset ≤ u.offset
  else if nanosecond t < nanosecond u then u.offset ≤ t.offset else t.offset ≤ u.offset

/-- When the texts of two times are in the order of the instants. -/
def KeepsOrder (t u : Time) : Prop := if year t ≠ year u then yearOrder (year t) (year u) = cmp t.ns u.ns
  else if localSecond t < localSecond u then t.ns < u.ns
  else if localSecond u < localSecond t then u.ns < t.ns
  else KeepsTail t u

/-- When two times are written alike: one local time, and zones alike to the minute. -/
def SameText (t u : Time) : Prop :=
  year t = year u ∧ localSecond t = localSecond u ∧ nanosecond t = nanosecond u ∧
    zoneOrder t.offset u.offset = .eq

theorem keeps_tail_iff (same : localSecond t = localSecond u) :
    tailOrder t u = cmp t.ns u.ns ↔ KeepsTail t u := by
  have small := nanosecond_bound t
  have small' := nanosecond_bound u
  have instant := instant_parts t
  have instant' := instant_parts u
  rw [same] at instant
  unfold tailOrder KeepsTail
  by_cases level : nanosecond t = nanosecond u
  · have zones : cmp t.ns u.ns = cmp u.offset t.offset := by
      rw [level] at instant
      apply cmp_congr <;> omega
    rw [if_pos level, if_pos level, zones]
  · rw [if_neg level, if_neg level]
    by_cases short : fraction t <+: fraction u
    · have before := prefix_before short level
      rw [if_pos short, if_pos short]
      by_cases utc : t.offset = 0
      · rw [if_pos utc, if_pos utc, eq_comm, cmp_eq_gt_iff]
        omega
      · rw [if_neg utc, if_neg utc, eq_comm, cmp_eq_lt_iff]
        omega
    · rw [if_neg short, if_neg short]
      by_cases short' : fraction u <+: fraction t
      · have before := prefix_before short' (Ne.symm level)
        rw [if_pos short', if_pos short']
        by_cases utc : u.offset = 0
        · rw [if_pos utc, if_pos utc, eq_comm, cmp_eq_lt_iff]
          omega
        · rw [if_neg utc, if_neg utc, eq_comm, cmp_eq_gt_iff]
          omega
      · rw [if_neg short', if_neg short']
        by_cases less : nanosecond t < nanosecond u
        · rw [if_pos less, (cmp_eq_lt_iff _ _).mpr less, eq_comm, cmp_eq_lt_iff]
          omega
        · have more : nanosecond u < nanosecond t := by omega
          rw [if_neg less, (cmp_eq_gt_iff _ _).mpr more, eq_comm, cmp_eq_gt_iff]
          omega

theorem text_order_years (differ : year t ≠ year u) : textOrder t u = yearOrder (year t) (year u) := by
  unfold textOrder
  cases order : yearOrder (year t) (year u) with
  | eq => exact absurd ((year_order_eq_iff _ _).mp order) differ
  | lt => rfl
  | gt => rfl

/-- Within a year the second of the year counts the seconds of the local clock. -/
theorem text_order_seconds (same : year t = year u) :
    textOrder t u = (cmp (localSecond t) (localSecond u)).then (tailOrder t u) := by
  have parts := local_second_parts t
  have parts' := local_second_parts u
  have seconds : cmp (yearSecond t) (yearSecond u) = cmp (localSecond t) (localSecond u) := by
    rw [same] at parts
    apply cmp_congr <;> omega
  rw [textOrder, (year_order_eq_iff _ _).mpr same, Ordering.eq_then, seconds]

theorem keeps_order_iff (t u : Time) :
    lexCompare (formatRFC3339Nano t) (formatRFC3339Nano u) = cmp t.ns u.ns ↔ KeepsOrder t u := by
  rw [lex_format, KeepsOrder]
  by_cases years : year t = year u
  · rw [if_neg (not_not.mpr years), text_order_seconds years]
    rcases lt_trichotomy (localSecond t) (localSecond u) with less | same | more
    · rw [if_pos less, (cmp_eq_lt_iff _ _).mpr less, Ordering.lt_then, eq_comm, cmp_eq_lt_iff]
    · rw [if_neg same.not_lt, if_neg same.not_gt, (cmp_eq_eq_iff _ _).mpr same, Ordering.eq_then,
        keeps_tail_iff same]
    · rw [if_neg more.asymm, if_pos more, (cmp_eq_gt_iff _ _).mpr more, Ordering.gt_then,
        eq_comm, cmp_eq_gt_iff]
  · rw [if_pos years, text_order_years years]

/-- When the first text stands before the second exactly if the first instant does. -/
def KeepsBefore (t u : Time) : Prop :=
  if year t ≠ year u then (yearOrder (year t) (year u) = .lt ↔ t.ns < u.ns)
  else if localSecond t < localSecond u then t.ns < u.ns
  else if localSecond u < localSecond t then u.ns ≤ t.ns
  else if nanosecond t = nanosecond u then
    (zoneOrder t.offset u.offset = .lt ↔ u.offset < t.offset)
  else KeepsTail t u

theorem tail_order_strict (differ : nanosecond t ≠ nanosecond u) : tailOrder t u ≠ .eq := by
  rw [tailOrder, if_neg differ]
  by_cases short : fraction t <+: fraction u
  · rw [if_pos short]
    split <;> simp
  · by_cases short' : fraction u <+: fraction t
    · rw [if_neg short, if_pos short']
      split <;> simp
    · rw [if_neg short, if_neg short', ne_eq, cmp_eq_eq_iff]
      exact differ

/-- Instants of different nanoseconds differ, and so do the tails of their texts. -/
theorem keeps_tail_before (same : localSecond t = localSecond u) (differ : nanosecond t ≠ nanosecond u) :
    (tailOrder t u = .lt ↔ t.ns < u.ns) ↔ KeepsTail t u := by
  have small := nanosecond_bound t
  have small' := nanosecond_bound u
  have instant := instant_parts t
  have instant' := instant_parts u
  rw [← keeps_tail_iff same]
  rcases lt_trichotomy t.ns u.ns with less | level | more
  · rw [(cmp_eq_lt_iff _ _).mpr less, iff_true_right less]
  · omega
  · rw [(cmp_eq_gt_iff _ _).mpr more, iff_false_right more.asymm]
    cases order : tailOrder t u with
    | eq => exact absurd order (tail_order_strict differ)
    | lt => simp
    | gt => simp

theorem keeps_before_iff (t u : Time) :
    (lexCompare (formatRFC3339Nano t) (formatRFC3339Nano u) = .lt ↔ t.ns < u.ns) ↔ KeepsBefore t u := by
  rw [lex_format, KeepsBefore]
  by_cases years : year t = year u
  · rw [if_neg (not_not.mpr years), text_order_seconds years]
    rcases lt_trichotomy (localSecond t) (localSecond u) with less | same | more
    · rw [if_pos less, (cmp_eq_lt_iff _ _).mpr less, Ordering.lt_then, iff_true_left rfl]
    · rw [if_neg same.not_lt, if_neg same.not_gt, (cmp_eq_eq_iff _ _).mpr same, Ordering.eq_then]
      by_cases level : nanosecond t = nanosecond u
      · have instant := instant_parts t
        have instant' := instant_parts u
        have zones : t.ns < u.ns ↔ u.offset < t.offset := by
          rw [level, same] at instant
          omega
        rw [if_pos level, tailOrder, if_pos level, zones]
      · rw [if_neg level, keeps_tail_before same level]
    · rw [if_neg more.asymm, if_pos more, (cmp_eq_gt_iff _ _).mpr more, Ordering.gt_then, ← not_lt]
      simp
  · rw [if_pos years, text_order_years years]

theorem same_text_iff (t u : Time) :
    lexCompare (formatRFC3339Nano t) (formatRFC3339Nano u) = .eq ↔ SameText t u := by
  rw [lex_format, SameText]
  by_cases years : year t = year u
  · rw [text_order_seconds years, Ordering.then_eq_eq, cmp_eq_eq_iff]
    by_cases level : nanosecond t = nanosecond u
    · simp [years, level, tailOrder]
    · simp [level, tail_order_strict level]
  · rw [text_order_years years, year_order_eq_iff]
    simp [years]

end Order

end Rfc3339
