import Radar.Base.TextOrder

/- The proleptic Gregorian calendar, counted in days since January 1 of year 1. -/
namespace Calendar
open TextOrder

def isLeap (year : Int) : Bool := year % 4 == 0 && (year % 100 != 0 || year % 400 == 0)

/-- Days from January 1 of year 1 to January 1 of a year. -/
def daysBeforeYear (year : Int) : Int :=
  365 * (year - 1) + (year - 1) / 4 - (year - 1) / 100 + (year - 1) / 400

/-- Cycles of 400, 100, 4 years and one year, the last of each longer by a day. -/
def yearOf (days : Int) : Int := let d := days % 146097
  let n100 := min (d / 36524) 3
  let d := d - 36524 * n100
  let n4 := d / 1461
  let d := d % 1461
  400 * (days / 146097) + 100 * n100 + 4 * n4 + min (d / 365) 3 + 1

def yearDay (days : Int) : Nat := (days - daysBeforeYear (yearOf days)).toNat

/-- Days of a year before a month, the months counted from 0. -/
def monthStart (leap : Bool) (month : Nat) : Nat :=
  [0, 31, 59, 90, 120, 151, 181, 212, 243, 273, 304, 334, 365].getD month 366 +
    if leap && 2 ≤ month then 1 else 0

/-- The month a day of the year falls into, counted from 0. -/
def monthIndex (leap : Bool) (day : Nat) : Nat :=
  ((List.range 11).filter fun m => monthStart leap (m + 1) ≤ day).length

def monthDay (leap : Bool) (day : Nat) : Nat := day - monthStart leap (monthIndex leap day)

theorem leap_days (year : Int) :
    daysBeforeYear (year + 1) = daysBeforeYear year + 365 + if isLeap year then 1 else 0 := by
  unfold daysBeforeYear isLeap
  by_cases four : year % 4 = 0
  · by_cases hundred : year % 100 = 0
    · by_cases all : year % 400 = 0
      · simp only [four, hundred, all, beq_self_eq_true, bne_self_eq_false, Bool.false_or,
          Bool.and_self, if_true]
        omega
      · simp [four, hundred, all]
        omega
    · simp [four, hundred]
      omega
  · simp [four]
    omega

theorem days_before_cycles {e c q y : Int} (c_range : 0 ≤ c ∧ c ≤ 3) (q_range : 0 ≤ q ∧ q ≤ 24)
    (y_range : 0 ≤ y ∧ y ≤ 3) :
    daysBeforeYear (400 * e + 100 * c + 4 * q + y + 1) = 146097 * e + 36524 * c + 1461 * q + 365 * y := by
  have fours : (400 * e + 100 * c + 4 * q + y + 1 - 1) / 4 = 100 * e + 25 * c + q := by omega
  have hundreds : (400 * e + 100 * c + 4 * q + y + 1 - 1) / 100 = 4 * e + c := by omega
  have all : (400 * e + 100 * c + 4 * q + y + 1 - 1) / 400 = e := by omega
  rw [daysBeforeYear, fours, hundreds, all]
  omega

/-- The year after, whichever of the cycles it begins. -/
theorem days_before_next {e c q y : Int} (c_range : 0 ≤ c ∧ c ≤ 3) (q_range : 0 ≤ q ∧ q ≤ 24)
    (y_range : 0 ≤ y ∧ y ≤ 3) :
    daysBeforeYear (400 * e + 100 * c + 4 * q + y + 1 + 1) =
      if y < 3 then 146097 * e + 36524 * c + 1461 * q + 365 * (y + 1)
      else if q < 24 then 146097 * e + 36524 * c + 1461 * (q + 1)
      else if c < 3 then 146097 * e + 36524 * (c + 1)
      else 146097 * (e + 1) := by
  by_cases last : y < 3
  · have next := days_before_cycles (e := e) (y := y + 1) c_range q_range
      ⟨by omega, by omega⟩
    have same : 400 * e + 100 * c + 4 * q + y + 1 + 1 = 400 * e + 100 * c + 4 * q + (y + 1) + 1 := by omega
    rw [if_pos last, same, next]
  · by_cases fours : q < 24
    · have next := days_before_cycles (e := e) (q := q + 1) (y := 0) c_range
        ⟨by omega, by omega⟩ ⟨by omega, by omega⟩
      have same : 400 * e + 100 * c + 4 * q + y + 1 + 1 =
          400 * e + 100 * c + 4 * (q + 1) + 0 + 1 := by omega
      rw [if_neg last, if_pos fours, same, next]
      omega
    · by_cases hundreds : c < 3
      · have next := days_before_cycles (e := e) (c := c + 1) (q := 0) (y := 0)
          ⟨by omega, by omega⟩ ⟨by omega, by omega⟩ ⟨by omega, by omega⟩
        have same : 400 * e + 100 * c + 4 * q + y + 1 + 1 =
            400 * e + 100 * (c + 1) + 4 * 0 + 0 + 1 := by omega
        rw [if_neg last, if_neg fours, if_pos hundreds, same, next]
        omega
      · have next := days_before_cycles (e := e + 1) (c := 0) (q := 0) (y := 0)
          ⟨by omega, by omega⟩ ⟨by omega, by omega⟩ ⟨by omega, by omega⟩
        have same : 400 * e + 100 * c + 4 * q + y + 1 + 1 =
            400 * (e + 1) + 100 * 0 + 4 * 0 + 0 + 1 := by omega
        rw [if_neg last, if_neg fours, if_neg hundreds, same, next]
        omega

/-- The year a day belongs to begins at or before it and the next one after it. -/
theorem year_of_bounds (days : Int) :
    daysBeforeYear (yearOf days) ≤ days ∧ days < daysBeforeYear (yearOf days + 1) := by
  have whole := Int.mul_ediv_add_emod days 146097
  have inside := Int.emod_nonneg days (b := 146097) (by decide)
  have inside' := Int.emod_lt_of_pos days (b := 146097) (by decide)
  unfold yearOf
  dsimp only
  generalize days / 146097 = e at *
  generalize days % 146097 = d at *
  have c_range : 0 ≤ min (d / 36524) 3 ∧ min (d / 36524) 3 ≤ 3 := by omega
  have c_part : 36524 * min (d / 36524) 3 ≤ d ∧
      (d < 36524 * (min (d / 36524) 3 + 1) ∨ min (d / 36524) 3 = 3) := by omega
  generalize min (d / 36524) 3 = c at *
  have q_range : 0 ≤ (d - 36524 * c) / 1461 ∧ (d - 36524 * c) / 1461 ≤ 24 := by omega
  have q_part := Int.mul_ediv_add_emod (d - 36524 * c) 1461
  have q_rest : 0 ≤ (d - 36524 * c) % 1461 ∧ (d - 36524 * c) % 1461 < 1461 := by omega
  generalize (d - 36524 * c) / 1461 = q at *
  generalize (d - 36524 * c) % 1461 = r at *
  have y_range : 0 ≤ min (r / 365) 3 ∧ min (r / 365) 3 ≤ 3 := by omega
  have y_part : 365 * min (r / 365) 3 ≤ r ∧
      (r < 365 * (min (r / 365) 3 + 1) ∨ min (r / 365) 3 = 3) := by omega
  generalize min (r / 365) 3 = y at *
  rw [days_before_cycles c_range q_range y_range, days_before_next c_range q_range y_range]
  constructor
  · omega
  · split
    · omega
    · split
      · omega
      · split <;> omega

theorem year_day_eq (days : Int) : (yearDay days : Int) = days - daysBeforeYear (yearOf days) := by
  have := (year_of_bounds days).1
  unfold yearDay
  omega

theorem year_day_bound (days : Int) : yearDay days < 365 + if isLeap (yearOf days) then 1 else 0 := by
  have bounds := year_of_bounds days
  have leap := leap_days (yearOf days)
  have day := year_day_eq days
  by_cases long : isLeap (yearOf days) = true
  · rw [if_pos long] at leap ⊢
    omega
  · rw [if_neg long] at leap ⊢
    omega

theorem month_start_mono (leap : Bool) {a b : Nat} (le : a ≤ b) (inside : b ≤ 12) :
    monthStart leap a ≤ monthStart leap b := by
  have all : ∀ (leap : Bool) (a b : Fin 13), a ≤ b → monthStart leap a ≤ monthStart leap b := by
    decide
  exact all leap ⟨a, by omega⟩ ⟨b, by omega⟩ le

/-- A day of the year falls between the starts of a month and of the next one. -/
theorem month_around (leap : Bool) (day : Nat) {n : Nat} (ends : day < monthStart leap n) :
    ∃ month < n, monthStart leap month ≤ day ∧ day < monthStart leap (month + 1) := by
  induction n with
  | zero =>
    have first : monthStart leap 0 = 0 := by cases leap <;> rfl
    omega
  | succ n ih =>
    by_cases before : day < monthStart leap n
    · obtain ⟨month, less, around⟩ := ih before
      exact ⟨month, by omega, around⟩
    · exact ⟨n, by omega, by omega, ends⟩

theorem month_index_eq (leap : Bool) {day month : Nat} (inside : month < 12) (start : monthStart leap month ≤ day)
    (ends : day < monthStart leap (month + 1)) : monthIndex leap day = month := by
  have passed : ∀ m ∈ List.range 11, decide (monthStart leap (m + 1) ≤ day) = decide (m < month) := by
    intro m member
    have small := List.mem_range.mp member
    by_cases before : m < month
    · have earlier := month_start_mono leap (a := m + 1) before (by omega)
      rw [decide_eq_true before, decide_eq_true (by omega)]
    · have later := month_start_mono leap (a := month + 1) (b := m + 1) (by omega) (by omega)
      rw [decide_eq_false before, decide_eq_false (by omega)]
  have counted : ∀ month : Fin 12, ((List.range 11).filter fun m => m < month.val).length = month.val := by decide
  rw [monthIndex, List.filter_congr passed]
  exact counted ⟨month, inside⟩

theorem month_bounds (leap : Bool) (day : Nat) (bound : day < 365 + if leap then 1 else 0) :
    monthStart leap (monthIndex leap day) ≤ day ∧
      day < monthStart leap (monthIndex leap day + 1) ∧ monthIndex leap day < 12 := by
  have last : monthStart leap 12 = 365 + if leap then 1 else 0 := by cases leap <;> rfl
  obtain ⟨month, inside, start, ends⟩ := month_around leap day (by omega : day < monthStart leap 12)
  rw [month_index_eq leap inside start ends]
  exact ⟨start, ends, inside⟩

theorem month_length (leap : Bool) {month : Nat} (inside : month < 12) :
    monthStart leap (month + 1) ≤ monthStart leap month + 31 := by
  have all : ∀ (leap : Bool) (m : Fin 12), monthStart leap (m + 1) ≤ monthStart leap m + 31 := by
    decide
  exact all leap ⟨month, inside⟩

theorem month_day_bound (leap : Bool) {day : Nat} (bound : day < 365 + if leap then 1 else 0) :
    monthDay leap day < 31 := by
  obtain ⟨start, ends, inside⟩ := month_bounds leap day bound
  have length := month_length leap inside
  unfold monthDay
  omega

/-- Days of one year compare by their months, then by their days of the month. -/
theorem cmp_year_day (leap : Bool) {a b : Nat} (first : a < 365 + if leap then 1 else 0)
    (second : b < 365 + if leap then 1 else 0) :
    (cmp (monthIndex leap a) (monthIndex leap b)).then (cmp (monthDay leap a) (monthDay leap b)) =
      cmp a b := by
  obtain ⟨start, ends, inside⟩ := month_bounds leap a first
  obtain ⟨start', ends', inside'⟩ := month_bounds leap b second
  apply cmp_then
  · intro less
    have gap := month_start_mono leap (Nat.succ_le_of_lt less) (by omega)
    simp only [Nat.succ_eq_add_one] at gap
    omega
  · intro more
    have gap := month_start_mono leap (Nat.succ_le_of_lt more) (by omega)
    simp only [Nat.succ_eq_add_one] at gap
    omega
  · intro same
    rw [same] at start
    apply cmp_congr
    · simp only [monthDay, same]
      omega
    · simp only [monthDay, same]
      omega

end Calendar
